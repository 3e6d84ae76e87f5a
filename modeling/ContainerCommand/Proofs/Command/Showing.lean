import ContainerCommand.Proofs.Command.Mounts
import ContainerCommand.Proofs.Parameter.Soundness

/-! What a parameter shows, and when it can.

`Parameter.Shows` lists what a template and a value come to: a switch shows its words if
it is on, a single value shows one token, and a list of paths shows one for each of its
elements, in their order. The tokens of a parameter are what its value shows
(`tokens_eq_ok_iff`), and there are such tokens exactly if each value that goes into the
template can be written there (`exists_tokens_iff`). -/
namespace ContainerCommand

/-- The value of an entry and whether it is suppressed. -/
def Resolved.marked (r : Resolved) : Value × Bool :=
  (r.value, r.isSuppressed)

/-- Whether a name has a value that is kept from being shown. -/
def Resolution.suppresses (resolution : Resolution) (name : String) : Bool :=
  (resolution.get? name).any Resolved.isSuppressed

/-! ### Writing a value in a template -/

namespace Template

/-- The value can be written under the conversion: a number under all, a text under those that it
reads as, and what is no list as a text. -/
inductive Writes : Conversion → Value → Prop
  | text {value} : (∀ items, value ≠ .list items) → Writes .text value
  | integer (n) : Writes .integer (.int n)
  | truncated (x) : Writes .integer (.float x)
  | readInteger {s n} : Number.readInteger? (Text.trim s.toList) = some n →
      Writes .integer (.text s)
  | placesInteger (n) : Writes .places (.int n)
  | places (x) : Writes .places (.float x)
  | readNumber {s x} : Number.Binary64.read? (Text.trim s.toList) = some x →
      Writes .places (.text s)

namespace Argument

/-- The value can stand in place of the placeholder, if there is one. -/
def Takes (t : Argument) (value : Value) : Prop :=
  ∀ conversion, t.body.conversion? = some conversion → Writes conversion value

theorem exists_convert_iff {conversion : Conversion} {value : Value} :
    (∃ text, convert conversion value = .ok text) ↔ Writes conversion value := by
  constructor
  · rintro ⟨text, h⟩
    unfold convert at h
    split at h
    · cases h
    · rename_i hlist
      exact .text hlist
    · exact .integer _
    · exact .truncated _
    · split at h
      · rename_i n hn
        exact .readInteger hn
      · cases h
    · exact .placesInteger _
    · exact .places _
    · split at h
      · rename_i x hx
        exact .readNumber hx
      · cases h
    · cases h
  · intro h
    cases h with
    | @text value hlist =>
      cases value with
      | list items => exact absurd rfl (hlist items)
      | _ => exact ⟨_, rfl⟩
    | integer n => exact ⟨_, rfl⟩
    | truncated x => exact ⟨_, rfl⟩
    | readInteger hn => exact ⟨_, by rw [convert, hn]⟩
    | placesInteger n => exact ⟨_, rfl⟩
    | places x => exact ⟨_, rfl⟩
    | readNumber hx => exact ⟨_, by rw [convert, hx]⟩

theorem exists_fill_iff {t : Argument} {name : String} {value : Value} :
    (∃ words, t.fill name value = .ok words) ↔ t.Takes value := by
  unfold fill Takes
  cases t.body.conversion? with
  | none => simp
  | some conversion =>
    simp only [Option.some.injEq, forall_eq', ← exists_convert_iff]
    cases convert conversion value with
    | ok text => simp
    | error fault => simp

/-- The words of a filled-in template: its own, with the text of the value at the placeholder. -/
theorem fill_eq_ok_iff {t : Argument} {name : String} {value : Value} {words : List String} :
    t.fill name value = .ok words ↔
      t.body.conversion? = none ∧ words = t.words ∨
        ∃ conversion text, t.body.conversion? = some conversion ∧
          convert conversion value = .ok text ∧ words = t.body.fill text := by
  unfold fill
  cases t.body.conversion? with
  | none => simp [eq_comm]
  | some conversion =>
    cases hconvert : convert conversion value with
    | error fault => simp [hconvert]
    | ok text => simp [hconvert, eq_comm]

end Argument

end Template

/-! ### The tokens of a parameter -/

namespace Parameter

variable {p : Parameter} {rules : List MountRule} {t : Template.Argument}

theorem exists_token_iff {value : Value} :
    (∃ token, p.token t value = .ok token) ↔ t.Takes value := by
  rw [← @Template.Argument.exists_fill_iff t p.name value]
  unfold token
  simp only [bind_eq_ok_iff, pure_eq_ok_iff]
  constructor
  · rintro ⟨_, words, hwords, _⟩
    exact ⟨words, hwords⟩
  · rintro ⟨words, hwords⟩
    exact ⟨_, words, hwords, rfl⟩

theorem token_eq_ok_iff {value : Value} {token : Token} :
    p.token t value = .ok token ↔
      t.fill p.name value = .ok token.words ∧ token.param = p.name ∧
        token.role = if t.isRedirect then .redirect value.display else .argument := by
  unfold Parameter.token
  simp only [bind_eq_ok_iff, pure_eq_ok_iff]
  constructor
  · rintro ⟨words, hwords, rfl⟩
    exact ⟨hwords, rfl, rfl⟩
  · rintro ⟨hwords, hparam, hrole⟩
    refine ⟨token.words, hwords, ?_⟩
    rw [← hparam, ← hrole]

theorem elements_eq_ok_iff {value : Value} {paths : List String} :
    p.elements value = .ok paths ↔ value.Lists paths := by
  constructor
  · intro h
    cases value with
    | list items => exact Except.ok.inj h ▸ .list items
    | text s => exact Except.ok.inj h ▸ .text s
    | _ => cases h
  · intro h
    cases h <;> rfl

theorem exists_lists {value : Value} (hpath : p.kind.isPath = true)
    (hfits : p.kind.accepts value = true) : ∃ paths, value.Lists paths := by
  cases value with
  | text s => exact ⟨_, .text s⟩
  | list items => exact ⟨_, .list items⟩
  | _ => cases hkind : p.kind <;> simp [hkind, Kind.accepts, Kind.isPath] at hpath hfits

/-- What a parameter with a template shows for a value. -/
inductive Shows (p : Parameter) (rules : List MountRule) (t : Template.Argument) :
    Value → List Token → Prop
  | on : p.kind.isSwitch = true → Shows p rules t (.bool true) [⟨p.name, t.words, .argument⟩]
  | off {value} : p.kind.isSwitch = true → value ≠ .bool true → Shows p rules t value []
  | scalar {value token} : p.kind = .scalar → p.token t value = .ok token →
      Shows p rules t value [token]
  | path {host token} : p.kind.isPath = true →
      p.token t (.text (p.shownPath rules host)) = .ok token → Shows p rules t (.text host) [token]
  /-- The paths of a list are shown one after the other. -/
  | pathList {hosts tokens} : p.kind = .pathList →
      List.Forall₂ (fun host token => p.token t (.text (p.shownPath rules host)) = .ok token)
        hosts tokens →
      Shows p rules t (.list hosts) tokens

theorem Shows.of_emit {value : Value} {tokens : List Token}
    (h : p.emit rules t value = .ok tokens) :
    p.Shows rules t value tokens := by
  unfold emit at h
  cases hkind : p.kind with
  | flag | boolean =>
    simp only [hkind, Except.ok.injEq] at h
    have hswitch : p.kind.isSwitch = true := by rw [hkind]; rfl
    by_cases hvalue : value = .bool true
    · rw [if_pos hvalue] at h
      exact hvalue ▸ h ▸ .on hswitch
    · rw [if_neg hvalue] at h
      exact h ▸ .off hswitch hvalue
  | scalar =>
    simp only [hkind, bind_eq_ok_iff, pure_eq_ok_iff] at h
    obtain ⟨token, htoken, rfl⟩ := h
    exact .scalar hkind htoken
  | path =>
    cases value with
    | text host =>
      simp only [hkind, Value.text?, bind_eq_ok_iff, pure_eq_ok_iff] at h
      obtain ⟨token, htoken, rfl⟩ := h
      exact .path (by rw [hkind]; rfl) htoken
    | _ => simp [hkind, Value.text?] at h
  | pathList =>
    simp only [hkind, bind_eq_ok_iff, elements_eq_ok_iff, mapM_eq_ok_iff] at h
    obtain ⟨_, hlists, htokens⟩ := h
    cases hlists with
    | list hosts => exact .pathList hkind htokens
    | text host =>
      obtain ⟨token, rest, htoken, hrest, rfl⟩ := List.forall₂_cons_left_iff.mp htokens
      cases hrest
      exact .path (by rw [hkind]; rfl) htoken

/-- **The tokens of a template are what the value shows.** -/
theorem emit_eq_ok_iff {value : Value} {tokens : List Token} :
    p.emit rules t value = .ok tokens ↔ p.Shows rules t value tokens := by
  refine ⟨.of_emit, fun h => ?_⟩
  unfold emit
  cases h with
  | on hswitch => cases hkind : p.kind <;> simp_all [Kind.isSwitch]
  | off hswitch hvalue => cases hkind : p.kind <;> simp_all [Kind.isSwitch]
  | scalar hkind htoken =>
    simp only [hkind, bind_eq_ok_iff, pure_eq_ok_iff]
    exact ⟨_, htoken, rfl⟩
  | @path host token hpath htoken =>
    cases hkind : p.kind with
    | path =>
      simp only [Value.text?, bind_eq_ok_iff, pure_eq_ok_iff]
      exact ⟨_, htoken, rfl⟩
    | pathList =>
      simp only [bind_eq_ok_iff, elements_eq_ok_iff, mapM_eq_ok_iff]
      exact ⟨[host], .text host, .cons htoken .nil⟩
    | flag | boolean | scalar => simp [hkind, Kind.isPath] at hpath
  | pathList hkind htokens =>
    simp only [hkind, bind_eq_ok_iff, elements_eq_ok_iff, mapM_eq_ok_iff]
    exact ⟨_, .list _, htokens⟩

/-- A value that goes into the template of a parameter. -/
inductive Fills (p : Parameter) (rules : List MountRule) : Value → Value → Prop
  | scalar {value} : p.kind = .scalar → Fills p rules value value
  | path {value hosts host} : p.kind.isPath = true → value.Lists hosts → host ∈ hosts →
      Fills p rules value (.text (p.shownPath rules host))

/-- A token shows the words of a switch, or the template with one of the values that go into it. -/
theorem Shows.of_mem {value : Value} {tokens : List Token} (h : p.Shows rules t value tokens)
    {token : Token} (hmem : token ∈ tokens) :
    p.kind.isSwitch = true ∧ token = ⟨p.name, t.words, .argument⟩ ∨
      p.kind.isSwitch = false ∧ ∃ v, p.Fills rules value v ∧ p.token t v = .ok token := by
  have hpaths : p.kind.isPath = true → p.kind.isSwitch = false := by
    intro hpath
    cases hkind : p.kind <;> simp_all [Kind.isPath, Kind.isSwitch]
  cases h with
  | on hswitch => exact .inl ⟨hswitch, List.mem_singleton.mp hmem⟩
  | off _ _ => cases hmem
  | scalar hkind htoken =>
    rw [List.mem_singleton.mp hmem]
    exact .inr ⟨by rw [hkind]; rfl, _, .scalar hkind, htoken⟩
  | @path host _ hpath htoken =>
    rw [List.mem_singleton.mp hmem]
    exact .inr ⟨hpaths hpath, _, .path hpath (.text host) (List.mem_singleton_self host), htoken⟩
  | @pathList hosts _ hkind htokens =>
    have hpath : p.kind.isPath = true := by rw [hkind]; rfl
    obtain ⟨i, hi, rfl⟩ := List.getElem_of_mem hmem
    have hlength := htokens.length_eq
    exact .inr ⟨hpaths hpath, _, .path hpath (.list hosts) (List.getElem_mem (hlength ▸ hi)),
      htokens.get (hlength ▸ hi) hi⟩

/-- A token names the parameter that it shows. -/
theorem Shows.param_eq {value : Value} {tokens : List Token} (h : p.Shows rules t value tokens)
    {token : Token} (hmem : token ∈ tokens) : token.param = p.name := by
  rcases h.of_mem hmem with ⟨_, rfl⟩ | ⟨_, v, _, htoken⟩
  · rfl
  · exact (token_eq_ok_iff.mp htoken).2.1

/-! ### When a value can be shown -/

/-- Into the template of a parameter that names paths go the paths that the value lists. -/
theorem forall_fills_iff {value : Value} {hosts : List String} (hpath : p.kind.isPath = true)
    (hlists : value.Lists hosts) :
    (∀ v, p.Fills rules value v → t.Takes v) ↔
      ∀ host ∈ hosts, t.Takes (.text (p.shownPath rules host)) := by
  constructor
  · intro h host hmem
    exact h _ (.path hpath hlists hmem)
  · intro h v hv
    cases hv with
    | scalar hkind => simp [hkind, Kind.isPath] at hpath
    | path _ hlists' hmem =>
      rw [hlists'.unique hlists] at hmem
      exact h _ hmem

/-- A value that fits can be shown exactly if each value that goes into the template can be
written there. -/
theorem exists_emit_iff {value : Value} (hfits : p.kind.accepts value = true) :
    (∃ tokens, p.emit rules t value = .ok tokens) ↔ ∀ v, p.Fills rules value v → t.Takes v := by
  cases hkind : p.kind with
  | flag | boolean =>
    refine iff_of_true ⟨_, by rw [emit, hkind]⟩ fun v hv => ?_
    cases hv with
    | scalar hscalar => simp [hkind] at hscalar
    | path hpath _ _ => simp [hkind, Kind.isPath] at hpath
  | scalar =>
    simp only [emit, hkind, bind_eq_ok_iff, pure_eq_ok_iff]
    constructor
    · rintro ⟨_, token, htoken, _⟩ v hv
      cases hv with
      | scalar _ => exact exists_token_iff.mp ⟨token, htoken⟩
      | path hpath _ _ => simp [hkind, Kind.isPath] at hpath
    · intro h
      obtain ⟨token, htoken⟩ := exists_token_iff.mpr (h value (.scalar hkind))
      exact ⟨_, token, htoken, rfl⟩
  | path =>
    cases value with
    | text host =>
      rw [forall_fills_iff (by rw [hkind]; rfl) (.text host), List.forall_mem_singleton,
        ← exists_token_iff]
      simp only [emit, hkind, Value.text?, bind_eq_ok_iff, pure_eq_ok_iff]
      constructor
      · rintro ⟨_, token, htoken, _⟩
        exact ⟨token, htoken⟩
      · rintro ⟨token, htoken⟩
        exact ⟨_, token, htoken, rfl⟩
    | _ => simp [hkind, Kind.accepts] at hfits
  | pathList =>
    obtain ⟨hosts, hlists⟩ := exists_lists (by rw [hkind]; rfl) hfits
    have helements : p.elements value = .ok hosts := elements_eq_ok_iff.mpr hlists
    rw [forall_fills_iff (by rw [hkind]; rfl) hlists]
    simp only [emit, hkind, helements, bind_eq_ok_iff, Except.ok.injEq, exists_eq_left',
      exists_mapM_eq_ok_iff, exists_token_iff]

/-! ### Resolved parameters -/

variable {resolution : Resolution}

/-- Whether the value of the parameter is shown: it has one that is not suppressed, and a
template. -/
def isShownIn (p : Parameter) (resolution : Resolution) : Bool :=
  p.argument.isSome && (resolution.get? p.name).any (!·.isSuppressed)

theorem isShownIn_iff :
    p.isShownIn resolution = true ↔
      ∃ r t, resolution.get? p.name = some r ∧ r.isSuppressed = false ∧ p.argument = some t := by
  unfold isShownIn
  cases resolution.get? p.name <;> cases p.argument <;> simp

/-- A suppressed parameter shows nothing. -/
theorem tokens_of_suppresses (h : resolution.suppresses p.name = true) :
    p.tokens rules resolution = .ok [] := by
  unfold Parameter.tokens
  unfold Resolution.suppresses at h
  cases hr : resolution.get? p.name with
  | none => rfl
  | some r =>
    rw [hr, Option.any_some] at h
    cases p.argument with
    | none => rfl
    | some t => simp only [h, if_true]

/-- A parameter shows its value by itself, unless it is suppressed: where that comes from and what
else is resolved do not matter. -/
theorem tokens_congr {other : Resolution}
    (h : (resolution.get? p.name).map Resolved.marked = (other.get? p.name).map Resolved.marked) :
    p.tokens rules resolution = p.tokens rules other := by
  unfold Parameter.tokens
  cases hr : resolution.get? p.name with
  | none =>
    rw [hr, Option.map_none, eq_comm, Option.map_eq_none_iff] at h
    rw [h]
  | some r =>
    rw [hr, Option.map_some, eq_comm, Option.map_eq_some_iff] at h
    obtain ⟨s, hs, hmarked⟩ := h
    obtain ⟨hvalue, hsuppressed⟩ := Prod.mk.inj hmarked
    rw [hs]
    cases p.argument with
    | none => rfl
    | some t => simp only [hvalue, hsuppressed]

/-- What a parameter shows of its resolved value. -/
def ShowsIn (p : Parameter) (rules : List MountRule) (resolution : Resolution)
    (tokens : List Token) : Prop :=
  ∃ r t, resolution.get? p.name = some r ∧ p.argument = some t ∧ p.Shows rules t r.value tokens

theorem tokens_eq_ok_iff {tokens : List Token} (h : p.isShownIn resolution = true) :
    p.tokens rules resolution = .ok tokens ↔ p.ShowsIn rules resolution tokens := by
  obtain ⟨r, t, hr, hsuppressed, ht⟩ := isShownIn_iff.mp h
  simp only [Parameter.tokens, ShowsIn, hr, ht, hsuppressed, Bool.false_eq_true, if_false,
    emit_eq_ok_iff, Option.some.injEq]
  constructor
  · intro htokens
    exact ⟨r, t, rfl, rfl, htokens⟩
  · rintro ⟨_, _, rfl, rfl, htokens⟩
    exact htokens

theorem tokens_eq_nil (h : p.isShownIn resolution = false) :
    p.tokens rules resolution = .ok [] := by
  unfold isShownIn at h
  unfold Parameter.tokens
  cases hr : resolution.get? p.name with
  | none => rfl
  | some r =>
    cases ht : p.argument with
    | none => rfl
    | some t =>
      simp only [hr, ht, Option.isSome_some, Option.any_some, Bool.true_and,
        Bool.not_eq_false'] at h
      simp only [h, if_true]

/-- A parameter that has tokens shows its resolved value. -/
theorem showsIn_of_mem_tokens {tokens : List Token} (h : p.tokens rules resolution = .ok tokens)
    {token : Token} (hmem : token ∈ tokens) : p.ShowsIn rules resolution tokens := by
  cases hshown : p.isShownIn resolution with
  | true => exact (tokens_eq_ok_iff hshown).mp h
  | false =>
    rw [tokens_eq_nil hshown, Except.ok.injEq] at h
    rw [← h] at hmem
    cases hmem

theorem param_of_mem_tokens {tokens : List Token} (h : p.tokens rules resolution = .ok tokens)
    {token : Token} (hmem : token ∈ tokens) : token.param = p.name := by
  obtain ⟨r, t, _, _, hshows⟩ := showsIn_of_mem_tokens h hmem
  exact hshows.param_eq hmem

/-- A parameter has tokens exactly if what it shows can be written in its template. -/
theorem exists_tokens_iff
    (hfits : ∀ r, resolution.get? p.name = some r → p.kind.accepts r.value = true) :
    (∃ tokens, p.tokens rules resolution = .ok tokens) ↔
      ∀ r t, resolution.get? p.name = some r → r.isSuppressed = false → p.argument = some t →
        ∀ v, p.Fills rules r.value v → t.Takes v := by
  unfold Parameter.tokens
  cases hr : resolution.get? p.name with
  | none => simp
  | some r =>
    cases ht : p.argument with
    | none => simp
    | some t =>
      cases hsuppressed : r.isSuppressed with
      | true => simp [hsuppressed]
      | false => simpa [hsuppressed] using exists_emit_iff (hfits r hr)

/-- The host is in order for a parameter exactly if every path that must exist does. -/
theorem checkHost_eq_ok_iff (hp : p.Sound) {isOnHost : String → Bool}
    (hfits : ∀ r, resolution.get? p.name = some r → p.kind.accepts r.value = true) :
    p.checkHost isOnHost resolution = .ok () ↔
      (p.mustExist = true → ∀ r, resolution.get? p.name = some r →
        ∀ paths, r.value.Lists paths → ∀ path ∈ paths, isOnHost path = true) := by
  unfold checkHost Resolution.value?
  cases hexists : p.mustExist with
  | false => simp
  | true =>
    cases hr : resolution.get? p.name with
    | none => simp
    | some r =>
      obtain ⟨paths, hpaths⟩ := exists_lists (hp.isPath hexists) (hfits r hr)
      have helements : p.elements r.value = .ok paths := elements_eq_ok_iff.mpr hpaths
      show (p.elements r.value >>= _) = _ ↔ _
      simp only [bind_eq_ok_iff, helements, Except.ok.injEq, exists_eq_left', forall_const,
        Option.some.injEq, forall_eq']
      cases hfind : paths.find? (!isOnHost ·) with
      | none =>
        refine iff_of_true rfl fun others hothers path hmem => ?_
        rw [hothers.unique hpaths] at hmem
        simpa using List.find?_eq_none.mp hfind path hmem
      | some path =>
        refine iff_of_false (fun h => (by cases h)) fun h => ?_
        have hmissing := List.find?_some hfind
        simp [h paths hpaths path (List.mem_of_find?_eq_some hfind)] at hmissing

end Parameter

end ContainerCommand
