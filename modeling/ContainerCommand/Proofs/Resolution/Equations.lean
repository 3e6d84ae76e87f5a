import ContainerCommand.Proofs.Resolution.Walk
import ContainerCommand.Task.Builtin

/-! The equations of a resolution.

`Schema.Solves` says what a table of resolved parameters has to satisfy, entry by entry and
without any order: inputs stand for themselves, derived names are made of the source's
entry, the others have no entry, and an entry is suppressed by what the same table says of
the parameters that it requires. The table that a resolution returns is the one that satisfies
the equations (`solves_iff_of_resolve`), and so the one of which `Resolves` holds
(`resolve_eq_ok_iff_resolves`). -/
namespace ContainerCommand

namespace Schema

/-- The equations that resolved parameters satisfy. -/
structure Solves (schema : Schema) (inputs : Inputs) (table : Resolution) : Prop where
  declared : ∀ name, schema.contains name = false → table.get? name = none
  given : ∀ p ∈ schema.params, ∀ value, inputs.get? p.name = some value →
    ∃ r, table.get? p.name = some r ∧ r.found = (value, .explicit)
  /-- A name is derived from the source's entry: verbatim from a text, and from a number as it is
  shown. -/
  derived : ∀ p ∈ schema.params, ∀ source template s, inputs.get? p.name = none →
    p.nameSource = some source → p.nameTemplate = some template → table.get? source = some s →
    ∃ text r, s.value.sourceText? = some text ∧ table.get? p.name = some r ∧
      r.found = (.text (template.apply (pathStem text)), .derived)
  absent : ∀ p ∈ schema.params, inputs.get? p.name = none →
    (∀ source, p.nameSource = some source → table.get? source = none) →
    table.get? p.name = none
  /-- A requirement counts by its value alone, whether or not it is itself suppressed. -/
  suppressed : ∀ p ∈ schema.params, ∀ r, table.get? p.name = some r →
    (r.isSuppressed = true ↔ ∃ required ∈ p.requires, ∀ s, table.get? required = some s →
      s.value.isTruthy = false)

variable {schema : Schema} {inputs : Inputs}

/-! ### A solution has what the names settle as -/

theorem Solves.found_eq {table : Resolution} {name : String} {found : Option (Value × Origin)}
    (hs : schema.Solves inputs table) (h : schema.Settles inputs name found) :
    (table.get? name).map Resolved.found = found := by
  induction h with
  | given hp hgiven =>
    obtain ⟨hmem, rfl⟩ := get?_eq_some_iff.mp hp
    obtain ⟨r, hr, hfound⟩ := hs.given _ hmem _ hgiven
    rw [hr, Option.map_some, hfound]
  | bare hp hgiven hbare =>
    obtain ⟨hmem, rfl⟩ := get?_eq_some_iff.mp hp
    rw [hs.absent _ hmem hgiven (fun source hsource => by rw [hbare] at hsource; cases hsource)]
    rfl
  | idle hp hgiven hidle _ ih =>
    obtain ⟨hmem, rfl⟩ := get?_eq_some_iff.mp hp
    rw [hs.absent _ hmem hgiven fun source hsource => ?_]
    · rfl
    · rw [hidle] at hsource
      cases hsource
      exact Option.map_eq_none_iff.mp ih
  | derived hp hgiven hsource htemplate _ htext ih =>
    obtain ⟨hmem, rfl⟩ := get?_eq_some_iff.mp hp
    obtain ⟨s, hs', hvalue⟩ := Option.map_eq_some_iff.mp ih
    obtain ⟨text, r, htext', hr, hfound⟩ := hs.derived _ hmem _ _ s hgiven hsource htemplate hs'
    rw [show s.value = _ from congrArg Prod.fst hvalue, htext] at htext'
    cases htext'
    rw [hr, Option.map_some, hfound]

/-- Entries with the same values and origins are suppressed alike. -/
theorem Solves.isSuppressed_eq {t u : Resolution} (ht : schema.Solves inputs t)
    (hu : schema.Solves inputs u)
    (hfound : ∀ name, (t.get? name).map Resolved.found = (u.get? name).map Resolved.found)
    {p : Parameter} (hp : p ∈ schema.params) {r s : Resolved} (hr : t.get? p.name = some r)
    (hs : u.get? p.name = some s) : r.isSuppressed = s.isSuppressed := by
  have hiff : ∀ required,
      (∀ s, t.get? required = some s → s.value.isTruthy = false) ↔
        ∀ s, u.get? required = some s → s.value.isTruthy = false := by
    intro required
    have h := hfound required
    cases ht' : t.get? required <;> cases hu' : u.get? required <;> rw [ht', hu'] at h
    · cases h
    · cases h
    · have hvalue := congrArg Prod.fst (Option.some.inj h)
      simp only [Resolved.found] at hvalue
      simp [hvalue]
  rw [Bool.eq_iff_iff, ht.suppressed p hp r hr, hu.suppressed p hp s hs]
  simp only [hiff]

/-- Where all names settle, the equations have one solution at most. -/
theorem Solves.unique {t u : Resolution} (ht : schema.Solves inputs t)
    (hu : schema.Solves inputs u)
    (hsettles : ∀ p ∈ schema.params, ∃ found, schema.Settles inputs p.name found) : t = u := by
  have hfound : ∀ name, (t.get? name).map Resolved.found = (u.get? name).map Resolved.found := by
    intro name
    cases hname : schema.contains name with
    | false => rw [ht.declared name hname, hu.declared name hname]
    | true =>
      obtain ⟨p, hp, rfl⟩ := contains_iff.mp hname
      obtain ⟨found, hsettles⟩ := hsettles p hp
      rw [ht.found_eq hsettles, hu.found_eq hsettles]
  apply Table.ext_get?
  intro name
  have h := hfound name
  cases hr : t.get? name <;> cases hs : u.get? name <;> rw [hr, hs] at h
  · cases h
  · cases h
  · rename_i r s
    have hname : schema.contains name = true := by
      rw [← Bool.not_eq_false]
      intro hname
      rw [ht.declared name hname] at hr
      cases hr
    obtain ⟨p, hp, rfl⟩ := contains_iff.mp hname
    have hsuppressed := ht.isSuppressed_eq hu hfound hp hr hs
    have hvalue := Prod.mk.inj (Option.some.inj h)
    obtain ⟨v, o, b⟩ := r
    obtain ⟨v', o', b'⟩ := s
    obtain ⟨rfl, rfl⟩ := hvalue
    cases hsuppressed
    rfl

/-! ### A resolution is a solution -/

namespace Resolves

variable {resolution : Resolution}

theorem solves (h : schema.Resolves inputs resolution) : schema.Solves inputs resolution := by
  refine ⟨fun name hname => ?_, fun p hp value hgiven => ?_,
    fun p hp source template s hgiven hsource htemplate hs => ?_,
    fun p hp hgiven hnone => ?_, fun p hp r hr => ?_⟩
  · cases hr : resolution.get? name with
    | none => rfl
    | some r =>
      rw [h.declared name r hr] at hname
      cases hname
  · exact Option.map_eq_some_iff.mp ((h.settles p hp).eq_given hgiven)
  · rcases (h.settles p hp).of_source (get?_name hp) hgiven hsource with
      ⟨hidle, _⟩ | ⟨template', value, origin, text, htemplate', hvalue, htext, hfound⟩
    · have hnone := h.found_eq hidle
      rw [hs] at hnone
      cases hnone
    · rw [htemplate] at htemplate'
      cases htemplate'
      have hs' := h.found_eq hvalue
      rw [hs, Option.map_some, Option.some.injEq] at hs'
      obtain ⟨r, hr, hr'⟩ := Option.map_eq_some_iff.mp hfound
      exact ⟨text, r, by rw [show s.value = value from congrArg Prod.fst hs']; exact htext, hr, hr'⟩
  · rw [← Option.map_eq_none_iff]
    cases hsource : p.nameSource with
    | none => exact (h.settles p hp).eq_none_of_bare (get?_name hp) hgiven hsource
    | some source =>
      rcases (h.settles p hp).of_source (get?_name hp) hgiven hsource with
        ⟨_, hfound⟩ | ⟨_, _, _, _, _, hvalue, _, _⟩
      · exact hfound
      · have hs := h.found_eq hvalue
        rw [hnone source hsource] at hs
        cases hs
  · rw [h.suppressed p hp r hr, isSuppressedIn_iff]

theorem unique {other : Resolution} (h : schema.Resolves inputs resolution)
    (h' : schema.Resolves inputs other) : resolution = other :=
  h.solves.unique h'.solves fun p hp => ⟨_, h.settles p hp⟩

/-- The inputs of a resolution can be resolved. -/
theorem resolvable (h : schema.Resolves inputs resolution) : schema.Resolvable inputs := by
  refine .of_settles (fun name => (resolution.get? name).map Resolved.found) h.settles
    fun p hp value origin hfound => ?_
  obtain ⟨r, hr, hvalue⟩ := Option.map_eq_some_iff.mp hfound
  rw [← (Prod.mk.inj hvalue).1]
  exact h.fits p hp r hr

end Resolves

/-- **What a resolution says of the parameters determines it**, and a table that says so is the one
that is returned. -/
theorem resolve_eq_ok_iff_resolves {resolution : Resolution} :
    schema.resolve inputs = .ok resolution ↔
      schema.undeclared? inputs = none ∧ schema.Resolves inputs resolution := by
  constructor
  · intro h
    exact ⟨(resolve_eq_ok_iff.mp h).1, resolves_of_resolve h⟩
  · rintro ⟨hdeclared, h⟩
    obtain ⟨other, hother⟩ : ∃ other, schema.resolve inputs = .ok other := by
      refine exists_resolve_eq_ok_iff.mpr
        ⟨undeclared?_eq_none_iff.mp hdeclared, h.resolvable, fun p hp hmandatory => ?_⟩
      obtain ⟨r, hr⟩ := h.mandatory p hp hmandatory
      exact ⟨r.found, h.settles_iff.mpr ⟨r, hr, rfl, rfl⟩⟩
    rw [hother, h.unique (resolves_of_resolve hother)]

/-- **A resolution is the one solution of its equations**: no other table satisfies them. -/
theorem solves_iff_of_resolve {resolution : Resolution}
    (h : schema.resolve inputs = .ok resolution) (table : Resolution) :
    schema.Solves inputs table ↔ table = resolution := by
  have hresolves := resolves_of_resolve h
  constructor
  · intro htable
    exact htable.unique hresolves.solves fun p hp => ⟨_, hresolves.settles p hp⟩
  · rintro rfl
    exact hresolves.solves

/-- In the demonstration, a name is derived from a path and suppressed by a switch that is off. -/
theorem solves_iff_demo :
    let inputs : Inputs := .ofList
      [("dwiFile", .text "/data/sub1/dwi.nrrd"), ("returnParameterFile", .bool false)]
    let resolution : Resolution := .ofList
      [("dwiFile", ⟨.text "/data/sub1/dwi.nrrd", .explicit, false⟩),
        ("returnParameterFile", ⟨.bool false, .explicit, false⟩),
        ("returnParameterFileName", ⟨.text "dwi_params.txt", .derived, true⟩)]
    demo.schema.resolve inputs = .ok resolution ∧
      ∀ table, demo.schema.Solves inputs table ↔ table = resolution := by
  intro inputs resolution
  have h : demo.schema.resolve inputs = .ok resolution := by decide +kernel
  exact ⟨h, solves_iff_of_resolve h⟩

end Schema

end ContainerCommand
