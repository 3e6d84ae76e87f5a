import ContainerCommand.Proofs.Resolution.Visit

/-! The walk through all parameters, and the resolution that it ends in.

The walk succeeds exactly when the inputs fit and the chains of derivations can be read
(`exists_walk_eq_ok_iff`), and what it knows then is what the names settle as
(`walk_sound`, `settles_of_walk`), in whatever order they are declared. A resolution adds
to it that every input is declared and every mandatory parameter has a value
(`exists_resolve_eq_ok_iff`), and marks what is suppressed (`Resolves`). -/
namespace ContainerCommand

namespace Schema

variable {schema : Schema} {inputs : Inputs} {after : Walk}

theorem foldlM_visit_sound {params : List Parameter} {walk : Walk}
    (h : params.foldlM (fun (walk : Walk) p => walk.visit schema inputs p.name) walk = .ok after)
    (hs : Walk.Sound schema inputs walk) :
    Walk.Sound schema inputs after ∧ (∀ n, walk.isSettled n = true → after.isSettled n = true) ∧
      ∀ p ∈ params, after.isSettled p.name = true := by
  induction params generalizing walk with
  | nil =>
    rw [List.foldlM_nil, pure_eq_ok_iff] at h
    subst h
    exact ⟨hs, fun _ hn => hn, fun p hp => by cases hp⟩
  | cons p rest ih =>
    rw [List.foldlM_cons, bind_eq_ok_iff] at h
    obtain ⟨next, hnext, h⟩ := h
    obtain ⟨hsound, hvisited⟩ := Walk.visit_sound hnext hs
    obtain ⟨hafter, hkeeps, hrest⟩ := ih h hsound
    refine ⟨hafter, fun n hn => hkeeps n (hvisited.keeps hn), fun q hq => ?_⟩
    rcases List.mem_cons.mp hq with rfl | hq
    · exact hkeeps q.name hvisited.settled
    · exact hrest q hq

/-- **What the walk knows at its end is what the names settle as**, and it knows all of them. -/
theorem walk_sound (h : schema.walk inputs = .ok after) :
    Walk.Sound schema inputs after ∧ ∀ p ∈ schema.params, after.isSettled p.name = true := by
  obtain ⟨hsound, _, hall⟩ := foldlM_visit_sound h (.empty schema inputs)
  exact ⟨hsound, hall⟩

/-- Every parameter settles as the walk has it. -/
theorem settles_of_walk (h : schema.walk inputs = .ok after) {p : Parameter}
    (hp : p ∈ schema.params) :
    schema.Settles inputs p.name ((after.resolved.get? p.name).map Resolved.found) :=
  (walk_sound h).1.settles ((walk_sound h).2 p hp)

/-- Where every parameter settles as something that fits it, the chains can be read. -/
theorem Resolvable.of_settles (found : String → Option (Value × Origin))
    (hsettles : ∀ p ∈ schema.params, schema.Settles inputs p.name (found p.name))
    (hfits : ∀ p ∈ schema.params, ∀ value origin, found p.name = some (value, origin) →
      p.kind.accepts value = true) : schema.Resolvable inputs := by
  refine ⟨fun p hp value hgiven => ?_, fun p hp name hreaches => ?_,
    fun p hp name hreaches => ?_, fun p hp source hawaits value origin hvalue => ?_⟩
  · exact hfits p hp value .explicit ((hsettles p hp).eq_given hgiven)
  · obtain ⟨_, hname⟩ := (hsettles p hp).of_reaches hreaches
    exact hname.declared
  · obtain ⟨_, hname⟩ := (hsettles p hp).of_reaches hreaches
    exact hname.not_awaits_self
  · obtain ⟨q, hq, hgiven, hsource⟩ := hawaits
    rw [get?_name hp] at hq
    cases hq
    rcases (hsettles p hp).of_source (get?_name hp) hgiven hsource with
      ⟨hidle, _⟩ | ⟨_, _, _, text, _, hvalue', htext, hfound⟩
    · cases hidle.unique hvalue
    · cases hvalue'.unique hvalue
      have haccepts := hfits p hp _ _ hfound
      rw [Kind.accepts_text, Bool.not_eq_true'] at haccepts
      exact ⟨by rw [htext]; rfl, haccepts⟩

/-- **The walk succeeds exactly if the inputs fit and the chains can be read.** -/
theorem exists_walk_eq_ok_iff :
    (∃ after, schema.walk inputs = .ok after) ↔ schema.Resolvable inputs := by
  constructor
  · rintro ⟨after, h⟩
    refine .of_settles (fun name => (after.resolved.get? name).map Resolved.found)
      (fun p hp => settles_of_walk h hp) fun p hp value origin hfound => ?_
    obtain ⟨r, hr, hvalue⟩ := Option.map_eq_some_iff.mp hfound
    rw [← (Prod.mk.inj hvalue).1]
    exact (walk_sound h).1.fits p hp r hr
  · intro hr
    refine exists_foldlM_eq_ok (fun walk => Walk.Sound schema inputs walk ∧ walk.visiting = [])
      (fun walk p hp hinv => ?_) ⟨.empty schema inputs, rfl⟩
    obtain ⟨hs, hvisiting⟩ := hinv
    obtain ⟨next, hnext⟩ := Walk.exists_visit_eq_ok hr hs ⟨p, hp, .refl⟩
      (fun n hn => by rw [hvisiting] at hn; cases hn)
    obtain ⟨hsound, hvisited⟩ := Walk.visit_sound hnext hs
    exact ⟨next, hnext, hsound, by rw [hvisited.visiting, hvisiting]⟩

end Schema

/-! ### Tables of the same values -/

section Map
variable {f : String → Resolved → Resolved} (hf : ∀ name r, (f name r).value = r.value)
include hf

theorem Resolution.value?_map (resolution : Resolution) (name : String) :
    Resolution.value? (resolution.map f) name = resolution.value? name := by
  have hvalue : Resolved.value ∘ f name = Resolved.value := funext (hf name)
  rw [value?, Table.get?_map, Option.map_map, hvalue, value?]

theorem Resolution.isTruthy_map (resolution : Resolution) (name : String) :
    Resolution.isTruthy (resolution.map f) name = resolution.isTruthy name := by
  rw [isTruthy, value?_map hf, isTruthy]

/-- Requirements are read off the values. -/
theorem Parameter.isSuppressedIn_map (p : Parameter) (resolution : Resolution) :
    p.isSuppressedIn (resolution.map f) = p.isSuppressedIn resolution := by
  simp only [isSuppressedIn, Resolution.isTruthy_map hf]

end Map

/-! ### Resolutions -/

namespace Schema

variable {schema : Schema} {inputs : Inputs}

theorem undeclared?_eq_none_iff :
    schema.undeclared? inputs = none ↔
      ∀ name, inputs.contains name = true → schema.contains name = true := by
  simp [undeclared?, Table.contains_iff_mem_names]

theorem missing?_eq_none_iff {resolution : Resolution} :
    schema.missing? resolution = none ↔
      ∀ p ∈ schema.params, p.isMandatory = true → ∃ r, resolution.get? p.name = some r := by
  simp [missing?, Table.contains, Option.ne_none_iff_exists']

theorem resolve_eq_ok_iff {resolution : Resolution} :
    schema.resolve inputs = .ok resolution ↔
      schema.undeclared? inputs = none ∧ ∃ after, schema.walk inputs = .ok after ∧
        schema.missing? after.resolved = none ∧
          schema.markSuppressed after.resolved = resolution := by
  unfold resolve
  cases schema.undeclared? inputs with
  | some name => simp [throw, throwThe, MonadExceptOf.throw, bind, Except.bind]
  | none =>
    show (schema.walk inputs >>= _) = _ ↔ _
    simp only [bind_eq_ok_iff, true_and]
    refine exists_congr fun after => and_congr_right fun _ => ?_
    cases schema.missing? after.resolved with
    | some p => simp [throw, throwThe, MonadExceptOf.throw, bind, Except.bind]
    | none => simp only [pure_eq_ok_iff, true_and]

/-- Whether an entry is suppressed is said by the values of what its parameter requires. -/
theorem isSuppressedIn_iff {p : Parameter} {resolution : Resolution} :
    p.isSuppressedIn resolution = true ↔
      ∃ required ∈ p.requires, ∀ s, resolution.get? required = some s →
        s.value.isTruthy = false := by
  simp only [Parameter.isSuppressedIn, List.any_eq_true]
  refine exists_congr fun required => and_congr_right fun _ => ?_
  rw [Bool.not_eq_true', Resolution.isTruthy, Resolution.value?]
  cases resolution.get? required with
  | none => simp
  | some s => simp

theorem get?_markSuppressed {p : Parameter} (hp : p ∈ schema.params) (resolution : Resolution) :
    (schema.markSuppressed resolution).get? p.name =
      (resolution.get? p.name).map fun r =>
        { r with isSuppressed := p.isSuppressedIn resolution } := by
  rw [markSuppressed, Table.get?_map, get?_name hp]
  rfl

/-- Marking changes neither values nor where they come from. -/
theorem map_found_markSuppressed (resolution : Resolution) (name : String) :
    ((schema.markSuppressed resolution).get? name).map Resolved.found =
      (resolution.get? name).map Resolved.found := by
  rw [markSuppressed, Table.get?_map, Option.map_map]
  rfl

theorem isSuppressedIn_markSuppressed (p : Parameter) (resolution : Resolution) :
    p.isSuppressedIn (schema.markSuppressed resolution) = p.isSuppressedIn resolution := by
  rw [markSuppressed, Parameter.isSuppressedIn_map]
  exact fun _ _ => rfl

/-- What a resolution that succeeds says of the declared parameters. -/
structure Resolves (schema : Schema) (inputs : Inputs) (resolution : Resolution) : Prop where
  declared : ∀ name r, resolution.get? name = some r → schema.contains name = true
  settles : ∀ p ∈ schema.params,
    schema.Settles inputs p.name ((resolution.get? p.name).map Resolved.found)
  fits : ∀ p ∈ schema.params, ∀ r, resolution.get? p.name = some r →
    p.kind.accepts r.value = true
  suppressed : ∀ p ∈ schema.params, ∀ r, resolution.get? p.name = some r →
    r.isSuppressed = p.isSuppressedIn resolution
  mandatory : ∀ p ∈ schema.params, p.isMandatory = true →
    ∃ r, resolution.get? p.name = some r

theorem resolves_of_resolve {resolution : Resolution} (h : schema.resolve inputs = .ok resolution) :
    schema.Resolves inputs resolution := by
  obtain ⟨_, after, hwalk, hmissing, rfl⟩ := resolve_eq_ok_iff.mp h
  obtain ⟨hsound, _⟩ := walk_sound hwalk
  refine ⟨fun name r hr => ?_, fun p hp => ?_, fun p hp r hr => ?_, fun p hp r hr => ?_,
    fun p hp hmandatory => ?_⟩
  · rw [markSuppressed, Table.get?_map, Option.map_eq_some_iff] at hr
    obtain ⟨s, hs, _⟩ := hr
    exact (hsound.resolved name s hs).declared
  · rw [map_found_markSuppressed]
    exact settles_of_walk hwalk hp
  · rw [get?_markSuppressed hp, Option.map_eq_some_iff] at hr
    obtain ⟨s, hs, rfl⟩ := hr
    exact hsound.fits p hp s hs
  · rw [get?_markSuppressed hp, Option.map_eq_some_iff] at hr
    obtain ⟨s, _, rfl⟩ := hr
    rw [isSuppressedIn_markSuppressed]
  · obtain ⟨r, hr⟩ := missing?_eq_none_iff.mp hmissing p hp hmandatory
    rw [get?_markSuppressed hp, hr]
    exact ⟨_, rfl⟩

namespace Resolves

variable {resolution : Resolution}

theorem found_eq (h : schema.Resolves inputs resolution) {name : String}
    {found : Option (Value × Origin)} (hsettles : schema.Settles inputs name found) :
    (resolution.get? name).map Resolved.found = found := by
  obtain ⟨p, hp, rfl⟩ := contains_iff.mp hsettles.declared
  exact (h.settles p hp).unique hsettles

/-- The entries of a resolution are the values that names settle as. -/
theorem settles_iff (h : schema.Resolves inputs resolution) {name : String} {value : Value}
    {origin : Origin} :
    schema.Settles inputs name (some (value, origin)) ↔
      ∃ r, resolution.get? name = some r ∧ r.value = value ∧ r.origin = origin := by
  constructor
  · intro hsettles
    obtain ⟨r, hr, hfound⟩ := Option.map_eq_some_iff.mp (h.found_eq hsettles)
    exact ⟨r, hr, congrArg Prod.fst hfound, congrArg Prod.snd hfound⟩
  · rintro ⟨r, hr, rfl, rfl⟩
    obtain ⟨p, hp, rfl⟩ := contains_iff.mp (h.declared name r hr)
    have hsettles := h.settles p hp
    rw [hr] at hsettles
    exact hsettles

/-- A parameter that is not derived and requires nothing is resolved as its input. -/
theorem get?_of_plain (h : schema.Resolves inputs resolution) {p : Parameter}
    (hp : p ∈ schema.params) (hsource : p.nameSource = none) (hrequires : p.requires = []) :
    resolution.get? p.name = (inputs.get? p.name).map fun value => ⟨value, .explicit, false⟩ := by
  have hsettles := h.settles p hp
  cases hgiven : inputs.get? p.name with
  | none =>
    rw [Option.map_none, ← Option.map_eq_none_iff]
    exact hsettles.eq_none_of_bare (get?_name hp) hgiven hsource
  | some value =>
    obtain ⟨r, hr, hfound⟩ := Option.map_eq_some_iff.mp (hsettles.eq_given hgiven)
    have hsuppressed := h.suppressed p hp r hr
    rw [Parameter.isSuppressedIn, hrequires, List.any_nil] at hsuppressed
    rw [hr, Option.map_some]
    obtain ⟨v, o, b⟩ := r
    cases hfound
    cases hsuppressed
    rfl

end Resolves

/-- **A resolution succeeds exactly if the inputs are declared, the walk succeeds and no mandatory
parameter is left without a value.** -/
theorem exists_resolve_eq_ok_iff :
    (∃ resolution, schema.resolve inputs = .ok resolution) ↔
      (∀ name, inputs.contains name = true → schema.contains name = true) ∧
        schema.Resolvable inputs ∧
        ∀ p ∈ schema.params, p.isMandatory = true →
          ∃ found, schema.Settles inputs p.name (some found) := by
  simp only [resolve_eq_ok_iff, undeclared?_eq_none_iff, missing?_eq_none_iff,
    ← exists_walk_eq_ok_iff]
  constructor
  · rintro ⟨_, hdeclared, after, hwalk, hmissing, _⟩
    refine ⟨hdeclared, ⟨after, hwalk⟩, fun p hp hmandatory => ?_⟩
    obtain ⟨r, hr⟩ := hmissing p hp hmandatory
    exact ⟨r.found, (walk_sound hwalk).1.resolved p.name r hr⟩
  · rintro ⟨hdeclared, ⟨after, hwalk⟩, hmandatory⟩
    refine ⟨_, hdeclared, after, hwalk, fun p hp hp' => ?_, rfl⟩
    obtain ⟨found, hfound⟩ := hmandatory p hp hp'
    obtain ⟨r, hr, _⟩ := Option.map_eq_some_iff.mp ((settles_of_walk hwalk hp).unique hfound)
    exact ⟨r, hr⟩

end Schema

end ContainerCommand
