import ContainerCommand.Proofs.Resolution.Derivation
import ContainerCommand.Proofs.Resolution.Single
import ContainerCommand.Resolution.Walk

/-! What a visit does.

A walk is sound (`Walk.Sound`) while its table and its list of undefined names say what
the names settle as, and no name that is being visited is in either. A visit that
succeeds keeps the walk sound, leaves all that was known and being visited as it was, and
settles its name (`visit_sound`). The names that are being visited wait for the visited
one, so a visit of a name whose chain ends succeeds (`exists_visit_eq_ok`), and one that fails for a
cycle names a name that waits for itself (`visit_eq_error_cases`). -/
namespace ContainerCommand

/-- The value of an entry and where it comes from. -/
def Resolved.found (r : Resolved) : Value × Origin :=
  (r.value, r.origin)

/-! ### Sound walks -/

namespace Walk

variable {schema : Schema} {inputs : Inputs} {walk after : Walk} {name : String}

theorem isSettled_iff {n : String} :
    walk.isSettled n = true ↔ (∃ r, walk.resolved.get? n = some r) ∨ n ∈ walk.undefined := by
  simp [isSettled, Table.contains, Option.isSome_iff_exists]

/-- The walk knows nothing but what the names settle as. -/
structure Sound (schema : Schema) (inputs : Inputs) (walk : Walk) : Prop where
  resolved : ∀ n r, walk.resolved.get? n = some r →
    schema.Settles inputs n (some r.found)
  fits : ∀ p ∈ schema.params, ∀ r, walk.resolved.get? p.name = some r →
    p.kind.accepts r.value = true
  undefined : ∀ n ∈ walk.undefined, schema.Settles inputs n none
  /-- What is being visited is not settled yet. -/
  apart : ∀ n ∈ walk.visiting, walk.isSettled n = false

/-- What a visit that succeeds has done. -/
structure Visited (name : String) (walk after : Walk) : Prop where
  settled : after.isSettled name = true
  visiting : after.visiting = walk.visiting
  resolved : ∀ n r, walk.resolved.get? n = some r → after.resolved.get? n = some r
  undefined : ∀ n ∈ walk.undefined, n ∈ after.undefined

theorem Visited.keeps {n : String} (h : Visited name walk after) (hn : walk.isSettled n = true) :
    after.isSettled n = true := by
  rw [isSettled_iff] at hn ⊢
  rcases hn with ⟨r, hr⟩ | hn
  · exact .inl ⟨r, h.resolved n r hr⟩
  · exact .inr (h.undefined n hn)

/-- A walk that has not begun. -/
theorem Sound.empty (schema : Schema) (inputs : Inputs) : Sound schema inputs {} := by
  refine ⟨fun n r h => ?_, fun p _ r h => ?_, fun n h => ?_, fun n h => ?_⟩
  · rw [Table.get?_empty] at h; cases h
  · rw [Table.get?_empty] at h; cases h
  · cases h
  · cases h

theorem Sound.settles {n : String} (hs : Sound schema inputs walk) (h : walk.isSettled n = true) :
    schema.Settles inputs n ((walk.resolved.get? n).map Resolved.found) := by
  cases hr : walk.resolved.get? n with
  | some r => exact hs.resolved n r hr
  | none =>
    rw [isSettled_iff, hr] at h
    rcases h with ⟨_, h⟩ | h
    · cases h
    · exact hs.undefined n h

theorem Sound.enter (hs : Sound schema inputs walk) (hname : walk.isSettled name = false) :
    Sound schema inputs (walk.enter name) := by
  refine ⟨hs.resolved, hs.fits, hs.undefined, fun n hn => ?_⟩
  show walk.isSettled n = false
  rcases List.mem_cons.mp hn with rfl | hn
  · exact hname
  · exact hs.apart n hn

/-! ### Leaving -/

theorem get?_resolved_leave (walk : Walk) (name n : String) (found : Option (Value × Origin)) :
    (walk.leave name found).resolved.get? n =
      if n = name then (found.map fun f => ⟨f.1, f.2, false⟩).or (walk.resolved.get? n)
      else walk.resolved.get? n := by
  cases found with
  | none => simp [leave]
  | some f =>
    simp only [leave, Table.get?_insert]
    split <;> rfl

theorem isSettled_leave (walk : Walk) (name n : String) (found : Option (Value × Origin)) :
    (walk.leave name found).isSettled n = true ↔ n = name ∨ walk.isSettled n = true := by
  cases found with
  | none => simp [isSettled_iff, leave, or_left_comm]
  | some f =>
    simp only [isSettled_iff, leave, Table.get?_insert]
    by_cases hn : n = name <;> simp [hn]

theorem visiting_leave (walk : Walk) (name : String) (found : Option (Value × Origin)) :
    (walk.leave name found).visiting = walk.visiting.erase name := by
  cases found <;> rfl

theorem mem_undefined_leave {n : String} {found : Option (Value × Origin)} :
    n ∈ (walk.leave name found).undefined ↔ (found = none ∧ n = name) ∨ n ∈ walk.undefined := by
  cases found <;> simp [leave]

/-! ### One visit -/

theorem visit_of_isSettled (hsettled : walk.isSettled name = true) :
    walk.visit schema inputs name = .ok walk := by
  rw [visit, if_pos hsettled]

theorem visit_of_mem_visiting (hsettled : walk.isSettled name = false)
    (hvisiting : name ∈ walk.visiting) :
    walk.visit schema inputs name = .error (.derivationCycle name) := by
  rw [visit, if_neg (by simp [hsettled]), dif_pos hvisiting]

theorem visit_of_get?_eq_none (hsettled : walk.isSettled name = false)
    (hfresh : name ∉ walk.visiting) (hp : schema.get? name = none) :
    walk.visit schema inputs name = .error (.unknownParameter name) := by
  rw [visit, if_neg (by simp [hsettled]), dif_neg hfresh]
  split
  · rfl
  · rename_i p hp'
    rw [hp] at hp'
    cases hp'

/-- A visit that has something to do visits the source that its name waits for, if there is one,
resolves the parameter from what is known then, and leaves the name. -/
theorem visit_eq_bind {p : Parameter} (hsettled : walk.isSettled name = false)
    (hfresh : name ∉ walk.visiting) (hp : schema.get? name = some p) :
    walk.visit schema inputs name =
      (match inputs.get? name, p.nameSource with
        | none, some source => (walk.enter name).visit schema inputs source
        | _, _ => .ok (walk.enter name)) >>= fun known =>
      p.resolve (inputs.get? name) known.resolved >>= fun found => .ok (known.leave name found) := by
  rw [visit, if_neg (by simp [hsettled]), dif_neg hfresh]
  split
  · rename_i hnone
    rw [hp] at hnone
    cases hnone
  · rename_i q hq
    rw [hp] at hq
    cases hq
    cases inputs.get? name <;> cases p.nameSource <;> rfl

/-- **A visit fails at a name that it meets again, at one that is not declared, or at a value.** What
is being visited waits for the visited name, so a name that is met again waits for itself. -/
theorem visit_eq_error_cases {e : CompileError} (h : walk.visit schema inputs name = .error e) :
    (∃ cyclic, e = .derivationCycle cyclic ∧
      ((∀ n ∈ walk.visiting, Relation.TransGen (schema.Awaits inputs) n name) →
        Relation.TransGen (schema.Awaits inputs) cyclic cyclic)) ∨
    (∃ unknown, e = .unknownParameter unknown) ∨ e.IsInvalidValue := by
  fun_induction Walk.visit schema inputs name walk with
  | case1 => cases h
  | case2 name walk hsettled hmem =>
    cases h
    exact .inl ⟨name, rfl, fun hvisiting => hvisiting name hmem⟩
  | case3 name =>
    cases h
    exact .inr (.inl ⟨name, rfl⟩)
  | case4 name walk _ _ p hp _ _ source hsource hgiven ih =>
    obtain h | ⟨_, _, h⟩ := bind_eq_error_iff.mp h
    · obtain ⟨cyclic, rfl, hcyclic⟩ | hother := ih h
      · have hawaits : schema.Awaits inputs name source := ⟨p, hp, hgiven, hsource⟩
        refine .inl ⟨cyclic, rfl, fun hvisiting => hcyclic fun n hn => ?_⟩
        rcases List.mem_cons.mp hn with rfl | hn
        · exact .single hawaits
        · exact (hvisiting n hn).tail hawaits
      · exact .inr hother
    · exact .inr (.inr (Parameter.invalidValue_of_resolve (bind_pure_eq_error_iff.mp h)))
  | case5 =>
    obtain h | ⟨_, _, h⟩ := bind_eq_error_iff.mp h
    · cases h
    · exact .inr (.inr (Parameter.invalidValue_of_resolve (bind_pure_eq_error_iff.mp h)))

/-- The walk in the middle of a visit: the visited name is being visited, and the source that it
waits for has been. -/
inductive Opens (schema : Schema) (inputs : Inputs) (name : String) (walk : Walk) : Walk → Prop
  | direct : (∀ source, ¬ schema.Awaits inputs name source) →
      Opens schema inputs name walk (walk.enter name)
  | chained {source known} : schema.Awaits inputs name source →
      (walk.enter name).visit schema inputs source = .ok known →
      Opens schema inputs name walk known

theorem opens_iff_of_not_awaits {known : Walk} (h : ∀ source, ¬ schema.Awaits inputs name source) :
    Opens schema inputs name walk known ↔ known = walk.enter name := by
  constructor
  · intro hopens
    cases hopens with
    | direct _ => rfl
    | chained hawaits _ => exact absurd hawaits (h _)
  · rintro rfl
    exact .direct h

theorem opens_iff_of_awaits {known : Walk} {source : String}
    (h : schema.Awaits inputs name source) :
    Opens schema inputs name walk known ↔
      (walk.enter name).visit schema inputs source = .ok known := by
  constructor
  · intro hopens
    cases hopens with
    | direct hnone => exact absurd h (hnone source)
    | chained hawaits hvisit => rw [h.unique hawaits]; exact hvisit
  · exact .chained h

/-- A visit that succeeds either has nothing to do, or opens the name, resolves its parameter from
what is known then and closes it again. -/
theorem visit_eq_ok_iff :
    walk.visit schema inputs name = .ok after ↔
      (walk.isSettled name = true ∧ after = walk) ∨
        (walk.isSettled name = false ∧ name ∉ walk.visiting ∧
          ∃ p known found, schema.get? name = some p ∧ Opens schema inputs name walk known ∧
            p.resolve (inputs.get? name) known.resolved = .ok found ∧
            after = known.leave name found) := by
  cases hsettled : walk.isSettled name with
  | true => simp [visit_of_isSettled hsettled, eq_comm]
  | false =>
    by_cases hvisiting : name ∈ walk.visiting
    · simp [visit_of_mem_visiting hsettled hvisiting, hvisiting]
    cases hp : schema.get? name with
    | none => simp [visit_of_get?_eq_none hsettled hvisiting hp]
    | some p =>
      rw [visit_eq_bind hsettled hvisiting hp]
      simp only [hvisiting, not_false_eq_true, true_and, Option.some.injEq]
      split
      · rename_i source hgiven hsource
        have hawaits : schema.Awaits inputs name source := ⟨p, hp, hgiven, hsource⟩
        simp only [bind_eq_ok_iff, opens_iff_of_awaits hawaits]
        grind
      · rename_i hnone
        have hdirect : ∀ source, ¬ schema.Awaits inputs name source := by
          rintro source ⟨q, hq, hgiven, hsource⟩
          rw [hp] at hq
          cases hq
          exact hnone source hgiven hsource
        simp only [bind_eq_ok_iff, opens_iff_of_not_awaits hdirect]
        grind

/-- What the middle of a visit knows, in terms of its beginning. -/
structure Opened (schema : Schema) (inputs : Inputs) (name : String) (walk known : Walk) :
    Prop where
  sound : Sound schema inputs known
  visiting : known.visiting = name :: walk.visiting
  resolved : ∀ n r, walk.resolved.get? n = some r → known.resolved.get? n = some r
  undefined : ∀ n ∈ walk.undefined, n ∈ known.undefined
  source : ∀ source, schema.Awaits inputs name source → known.isSettled source = true

/-- What is found for the visited parameter is what its name settles as. -/
theorem Opened.settles {known : Walk} {p : Parameter} {found : Option (Value × Origin)}
    (ho : Opened schema inputs name walk known) (hp : schema.get? name = some p)
    (h : p.Resolves (inputs.get? name) known.resolved found) :
    schema.Settles inputs name found := by
  have hsource : ∀ source, inputs.get? name = none → p.nameSource = some source →
      schema.Settles inputs source ((known.resolved.get? source).map Resolved.found) :=
    fun source hgiven hsource => ho.sound.settles (ho.source source ⟨p, hp, hgiven, hsource⟩)
  cases h with
  | given hgiven _ => exact .given hp hgiven
  | bare hgiven hbare => exact .bare hp hgiven hbare
  | @idle source hgiven hidle hvalue =>
    have hs := hsource source hgiven hidle
    rw [Resolution.value?, Option.map_eq_none_iff] at hvalue
    rw [hvalue] at hs
    exact .idle hp hgiven hidle hs
  | @derived source _ value _ hgiven hderived htemplate hvalue htext _ =>
    have hs := hsource source hgiven hderived
    obtain ⟨r, hr, rfl⟩ := Option.map_eq_some_iff.mp hvalue
    rw [hr] at hs
    exact .derived hp hgiven hderived htemplate hs htext

/-- Closing a name settles it and changes nothing else. -/
theorem Opened.leave {known : Walk} {p : Parameter} {found : Option (Value × Origin)}
    (ho : Opened schema inputs name walk known) (hfresh : name ∉ walk.visiting)
    (hp : schema.get? name = some p) (h : p.Resolves (inputs.get? name) known.resolved found) :
    Sound schema inputs (known.leave name found) ∧ Visited name walk (known.leave name found) := by
  have hopen : known.isSettled name = false :=
    ho.sound.apart name (by rw [ho.visiting]; exact List.mem_cons_self ..)
  have hvisiting : (known.leave name found).visiting = walk.visiting := by
    rw [visiting_leave, ho.visiting, List.erase_cons_head]
  have hunknown : known.resolved.get? name = none := by
    cases hr : known.resolved.get? name with
    | none => rfl
    | some r =>
      rw [isSettled_iff.mpr (.inl ⟨r, hr⟩)] at hopen
      cases hopen
  constructor
  · refine ⟨fun n r hr => ?_, fun q hq r hr => ?_, fun n hn => ?_, fun n hn => ?_⟩
    · rw [get?_resolved_leave] at hr
      split at hr
      · subst n
        rw [hunknown, Option.or_none, Option.map_eq_some_iff] at hr
        obtain ⟨f, rfl, rfl⟩ := hr
        exact ho.settles hp h
      · exact ho.sound.resolved n r hr
    · rw [get?_resolved_leave] at hr
      split at hr
      · rename_i hname
        rw [← hname, Schema.get?_name hq] at hp
        cases hp
        rw [hname, hunknown, Option.or_none, Option.map_eq_some_iff] at hr
        obtain ⟨⟨value, origin⟩, rfl, rfl⟩ := hr
        exact h.fits
      · exact ho.sound.fits q hq r hr
    · rcases mem_undefined_leave.mp hn with ⟨rfl, rfl⟩ | hn
      · exact ho.settles hp h
      · exact ho.sound.undefined n hn
    · rw [hvisiting] at hn
      rw [Bool.eq_false_iff, ne_eq, isSettled_leave, not_or]
      refine ⟨fun hname => hfresh (hname ▸ hn), ?_⟩
      rw [ho.sound.apart n (by rw [ho.visiting]; exact List.mem_cons_of_mem name hn)]
      exact Bool.false_ne_true
  · refine ⟨(isSettled_leave ..).mpr (.inl rfl), hvisiting, fun n r hr => ?_, fun n hn => ?_⟩
    · rw [get?_resolved_leave]
      split
      · subst n
        rw [ho.resolved name r hr] at hunknown
        cases hunknown
      · exact ho.resolved n r hr
    · exact mem_undefined_leave.mpr (.inr (ho.undefined n hn))

/-- A name that waits for none is opened by entering it. -/
theorem Sound.opened (hs : Sound schema inputs walk) (hname : walk.isSettled name = false)
    (hnone : ∀ source, ¬ schema.Awaits inputs name source) :
    Opened schema inputs name walk (walk.enter name) :=
  ⟨hs.enter hname, rfl, fun _ _ hr => hr, fun _ hn => hn,
    fun source hawaits => absurd hawaits (hnone source)⟩

/-- A name that waits for a source is opened by entering it and visiting the source. -/
theorem Visited.opened {known : Walk} {source : String} (h : Visited source (walk.enter name) known)
    (hs : Sound schema inputs known) (hawaits : schema.Awaits inputs name source) :
    Opened schema inputs name walk known := by
  refine ⟨hs, h.visiting, h.resolved, h.undefined, fun other hother => ?_⟩
  rw [← hawaits.unique hother]
  exact h.settled

/-- Induction along a visit that succeeds: it has nothing to do, or it leaves its name as soon as it
has entered it, or after the visit of the source that the name waits for. -/
theorem visit_induction {motive : String → Walk → Walk → Prop}
    (settled : ∀ {name walk}, walk.isSettled name = true → motive name walk walk)
    (direct : ∀ {name walk p found}, walk.isSettled name = false → name ∉ walk.visiting →
      schema.get? name = some p → (∀ source, ¬ schema.Awaits inputs name source) →
      p.Resolves (inputs.get? name) (walk.enter name).resolved found →
      motive name walk ((walk.enter name).leave name found))
    (chained : ∀ {name walk source known p found}, walk.isSettled name = false →
      name ∉ walk.visiting → schema.get? name = some p → schema.Awaits inputs name source →
      motive source (walk.enter name) known → p.Resolves (inputs.get? name) known.resolved found →
      motive name walk (known.leave name found))
    (h : walk.visit schema inputs name = .ok after) : motive name walk after := by
  -- Fewer declared names are left to be visited inside of the visit.
  induction hn : walk.unvisited schema using Nat.strongRecOn generalizing name walk after with
  | ind n ih =>
    rcases visit_eq_ok_iff.mp h with
      ⟨hsettled, rfl⟩ | ⟨hsettled, hfresh, p, known, found, hp, hopens, hresolve, rfl⟩
    · exact settled hsettled
    · have hsound := Parameter.fault?_eq_none_iff.mp
        (schema.sound p (Schema.get?_eq_some_iff.mp hp).1)
      have hfound := (Parameter.resolve_eq_ok_iff hsound).mp hresolve
      cases hopens with
      | direct hnone => exact direct hsettled hfresh hp hnone hfound
      | chained hawaits hvisit =>
        exact chained hsettled hfresh hp hawaits
          (ih _ (hn ▸ unvisited_enter_lt hp hfresh) hvisit rfl) hfound

/-- **A visit that succeeds keeps the walk sound**, settles its name and leaves the rest as it
was. -/
theorem visit_sound (h : walk.visit schema inputs name = .ok after)
    (hs : Sound schema inputs walk) : Sound schema inputs after ∧ Visited name walk after := by
  revert hs
  refine visit_induction (motive := fun name walk after => Sound schema inputs walk →
    Sound schema inputs after ∧ Visited name walk after) ?settled ?direct ?chained h
  case settled =>
    intro name walk hsettled hs
    exact ⟨hs, hsettled, rfl, fun _ _ hr => hr, fun _ hn => hn⟩
  case direct =>
    intro name walk p found hsettled hfresh hp hnone hfound hs
    exact (hs.opened hsettled hnone).leave hfresh hp hfound
  case chained =>
    intro name walk source known p found hsettled hfresh hp hawaits ih hfound hs
    obtain ⟨hknown, hvisited⟩ := ih (hs.enter hsettled)
    exact (hvisited.opened hknown hawaits).leave hfresh hp hfound

end Walk

/-! ### Names that can be settled -/

namespace Schema

/-- The inputs fit, and the chains of derivations end and can be read. -/
structure Resolvable (schema : Schema) (inputs : Inputs) : Prop where
  fits : ∀ p ∈ schema.params, ∀ value, inputs.get? p.name = some value →
    p.kind.accepts value = true
  /-- A chain never leaves the schema. -/
  declared : ∀ p ∈ schema.params, ∀ name,
    Relation.ReflTransGen (schema.Awaits inputs) p.name name → schema.contains name = true
  /-- A chain never returns to where it has been. -/
  acyclic : ∀ p ∈ schema.params, ∀ name,
    Relation.ReflTransGen (schema.Awaits inputs) p.name name →
      ¬ Relation.TransGen (schema.Awaits inputs) name name
  /-- What a name is derived from has a text, and a name is a value of the parameter. -/
  derivable : ∀ p ∈ schema.params, ∀ source, schema.Awaits inputs p.name source →
    ∀ value origin, schema.Settles inputs source (some (value, origin)) →
      value.sourceText?.isSome = true ∧ p.kind.isSwitch = false

end Schema

namespace Walk

variable {schema : Schema} {inputs : Inputs} {walk after : Walk} {name : String}

/-- A parameter whose source has been visited is resolved. -/
theorem Opened.exists_resolve {known : Walk} {p : Parameter} (hr : schema.Resolvable inputs)
    (ho : Opened schema inputs name walk known) (hp : schema.get? name = some p) :
    ∃ found, p.resolve (inputs.get? name) known.resolved = .ok found := by
  obtain ⟨hmem, rfl⟩ := Schema.get?_eq_some_iff.mp hp
  have hsound := Parameter.fault?_eq_none_iff.mp (schema.sound p hmem)
  simp only [Parameter.resolve_eq_ok_iff hsound]
  cases hgiven : inputs.get? p.name with
  | some value => exact ⟨_, .given rfl (hr.fits p hmem value hgiven)⟩
  | none =>
    cases hsource : p.nameSource with
    | none => exact ⟨_, .bare rfl hsource⟩
    | some source =>
      cases hvalue : known.resolved.value? source with
      | none => exact ⟨_, .idle rfl hsource hvalue⟩
      | some value =>
        obtain ⟨template, htemplate⟩ := hsound.exists_template hsource
        obtain ⟨r, hr', rfl⟩ := Option.map_eq_some_iff.mp hvalue
        obtain ⟨htext, hswitch⟩ := hr.derivable p hmem source ⟨p, hp, hgiven, hsource⟩ _ _
          (ho.sound.resolved source r hr')
        obtain ⟨text, htext⟩ := Option.isSome_iff_exists.mp htext
        exact ⟨_, .derived rfl hsource htemplate hvalue htext hswitch⟩

/-- **A visit of a name on a chain succeeds** if what is being visited waits for the name. -/
theorem exists_visit_eq_ok (hr : schema.Resolvable inputs) (hs : Sound schema inputs walk)
    (hname : ∃ p ∈ schema.params, Relation.ReflTransGen (schema.Awaits inputs) p.name name)
    (hvisiting : ∀ n ∈ walk.visiting, Relation.TransGen (schema.Awaits inputs) n name) :
    ∃ after, walk.visit schema inputs name = .ok after := by
  induction hn : walk.unvisited schema using Nat.strongRecOn generalizing name walk with
  | ind n ih =>
    obtain ⟨start, hstart, hreaches⟩ := hname
    cases hsettled : walk.isSettled name with
    | true => exact ⟨walk, visit_eq_ok_iff.mpr (.inl ⟨hsettled, rfl⟩)⟩
    | false =>
      have hfresh : name ∉ walk.visiting := fun hmem =>
        hr.acyclic start hstart name hreaches (hvisiting name hmem)
      obtain ⟨p, hp⟩ : ∃ p, schema.get? name = some p := by
        rw [← Option.ne_none_iff_exists', ne_eq, Schema.get?_eq_none_iff,
          hr.declared start hstart name hreaches]
        decide
      obtain ⟨known, hopens, hopened⟩ :
          ∃ known, Opens schema inputs name walk known ∧ Opened schema inputs name walk known := by
        by_cases hawaits : ∃ source, schema.Awaits inputs name source
        · obtain ⟨source, hawaits⟩ := hawaits
          have hvisiting' : ∀ n ∈ (walk.enter name).visiting,
              Relation.TransGen (schema.Awaits inputs) n source := by
            intro n hmem
            rcases List.mem_cons.mp hmem with rfl | hmem
            · exact .single hawaits
            · exact (hvisiting n hmem).tail hawaits
          obtain ⟨known, hvisit⟩ := ih _ (hn ▸ unvisited_enter_lt hp hfresh) (hs.enter hsettled)
            ⟨start, hstart, hreaches.tail hawaits⟩ hvisiting' rfl
          obtain ⟨hknown, hvisited⟩ := visit_sound hvisit (hs.enter hsettled)
          exact ⟨known, .chained hawaits hvisit, hvisited.opened hknown hawaits⟩
        · rw [not_exists] at hawaits
          exact ⟨_, .direct hawaits, hs.opened hsettled hawaits⟩
      obtain ⟨found, hfound⟩ := hopened.exists_resolve hr hp
      exact ⟨_, visit_eq_ok_iff.mpr
        (.inr ⟨hsettled, hfresh, p, known, found, hp, hopens, hfound, rfl⟩)⟩

end Walk

end ContainerCommand
