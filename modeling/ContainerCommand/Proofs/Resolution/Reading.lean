import ContainerCommand.Proofs.Resolution.Walk

/-! What resolution reads of values.

A value that is given is looked at by its kind, a value that a name is derived from by its kind and
its text, and a value that is required by its truth. A change of values that keeps these goes
unnoticed, whatever the schema (`Unread`) or by one that looks no closer (`Schema.Overlooks`):
resolving changed inputs is resolving the inputs and changing the values afterwards, and it fails as
before (`resolve_change`). The induction is on the visits (`visit_change`). -/
namespace ContainerCommand

/-- A change of values, name by name, in nothing that resolution reads. -/
structure Unread (f : String → Value → Value) : Prop where
  tag : ∀ name value, (f name value).tag = value.tag
  sourceText? : ∀ name value, (f name value).sourceText? = value.sourceText?
  isTruthy : ∀ name value, (f name value).isTruthy = value.isTruthy

/-- What fits a kind is said by the kind of value. -/
theorem Kind.accepts_congr (kind : Kind) {v w : Value} (h : v.tag = w.tag) :
    kind.accepts v = kind.accepts w := by
  cases kind <;> cases v <;> cases w <;> first | rfl | cases h

/-- A text is read as a whole, so an unread change leaves it as it is. -/
theorem Unread.text {f : String → Value → Value} (hf : Unread f) (name s : String) :
    f name (.text s) = .text s := by
  have htag := hf.tag name (.text s)
  have htext := hf.sourceText? name (.text s)
  cases hvalue : f name (.text s) with
  | text t =>
    rw [hvalue] at htext
    cases htext
    rfl
  | _ => rw [hvalue] at htag; cases htag

/-- A change of values that a schema does not notice in inputs: it refuses no other value, derives the
same names, and leaves those names and the truth of all values as they are. -/
structure Schema.Overlooks (schema : Schema) (inputs : Inputs) (f : String → Value → Value) : Prop where
  check : ∀ p ∈ schema.params, ∀ value, inputs.get? p.name = some value →
    p.check (f p.name value) = p.check value
  derive : ∀ p ∈ schema.params, ∀ source, p.nameSource = some source → ∀ template value,
    p.derive source template (f source value) = p.derive source template value
  /-- The text is the name that the parameter has if none is given. -/
  derived : ∀ p ∈ schema.params, inputs.get? p.name = none → ∀ s, f p.name (.text s) = .text s
  isTruthy : ∀ name value, (f name value).isTruthy = value.isTruthy

theorem Unread.overlooks {f : String → Value → Value} (hf : Unread f) (schema : Schema)
    (inputs : Inputs) : schema.Overlooks inputs f where
  check p _ value _ := by
    rw [Parameter.check, p.kind.accepts_congr (hf.tag p.name value), hf.tag p.name value]
    rfl
  derive p _ source _ template value := by
    rw [Parameter.derive, hf.sourceText?, hf.tag]
    rfl
  derived p _ _ s := hf.text p.name s
  isTruthy := hf.isTruthy

/-! ### Changing the values of tables -/

namespace Table

variable {α β : Type}

theorem contains_map (f : String → α → β) (t : Table α) (name : String) :
    (t.map f).contains name = t.contains name := by
  rw [contains, get?_map, Option.isSome_map, contains]

theorem names_map (f : String → α → β) (t : Table α) : (t.map f).names = t.names :=
  List.map_map

theorem map_insert (f : String → α → β) (t : Table α) (name : String) (a : α) :
    (t.insert name a).map f = (t.map f).insert name (f name a) := by
  refine ext_get? fun other => ?_
  rw [get?_map, get?_insert, get?_insert, get?_map]
  split
  · rename_i hother
    rw [hother, Option.map_some]
  · rfl

end Table

/-- The table with the values changed. -/
def Resolution.change (f : String → Value → Value) (resolution : Resolution) : Resolution :=
  resolution.map fun name r => { r with value := f name r.value }

/-- The walk with the values that it knows changed. -/
def Walk.change (f : String → Value → Value) (walk : Walk) : Walk :=
  { walk with resolved := walk.resolved.change f }

section Change
variable {f : String → Value → Value} {schema : Schema} {inputs : Inputs} {walk : Walk}
  {name : String}

theorem Resolution.get?_change (resolution : Resolution) :
    (resolution.change f).get? name =
      (resolution.get? name).map fun r => { r with value := f name r.value } :=
  Table.get?_map ..

theorem Resolution.value?_change (resolution : Resolution) :
    (resolution.change f).value? name = (resolution.value? name).map (f name) := by
  rw [value?, get?_change, value?, Option.map_map, Option.map_map]
  rfl

theorem Resolution.isTruthy_change_of_isTruthy
    (hf : ∀ name value, (f name value).isTruthy = value.isTruthy) (resolution : Resolution) :
    (resolution.change f).isTruthy name = resolution.isTruthy name := by
  rw [isTruthy, value?_change, isTruthy]
  cases resolution.value? name with
  | none => rfl
  | some value => exact hf name value

theorem Resolution.isTruthy_change (hf : Unread f) (resolution : Resolution) :
    (resolution.change f).isTruthy name = resolution.isTruthy name :=
  isTruthy_change_of_isTruthy hf.isTruthy resolution

theorem Parameter.isSuppressedIn_change (hf : ∀ name value, (f name value).isTruthy = value.isTruthy)
    (p : Parameter) (resolution : Resolution) :
    p.isSuppressedIn (resolution.change f) = p.isSuppressedIn resolution := by
  simp only [isSuppressedIn, Resolution.isTruthy_change_of_isTruthy hf]

theorem Schema.markSuppressed_change (hf : ∀ name value, (f name value).isTruthy = value.isTruthy)
    (schema : Schema) (resolution : Resolution) :
    schema.markSuppressed (resolution.change f) = (schema.markSuppressed resolution).change f := by
  refine Table.ext_get? fun name => ?_
  rw [Resolution.get?_change, markSuppressed, markSuppressed, Table.get?_map, Table.get?_map,
    Resolution.get?_change, Option.map_map, Option.map_map]
  simp only [Parameter.isSuppressedIn_change hf]
  rfl

/-! ### Visits -/

theorem Walk.isSettled_change : (walk.change f).isSettled name = walk.isSettled name := by
  rw [isSettled, change, Resolution.change, Table.contains_map, isSettled]

theorem Walk.leave_change (found : Option (Value × Origin)) :
    (walk.change f).leave name (found.map fun v => (f name v.1, v.2)) =
      (walk.leave name found).change f := by
  cases found with
  | none => rfl
  | some v =>
    simp only [leave, change, Option.map_some, Resolution.change, Table.map_insert]

/-- What is found for a parameter is changed, if it is a value, and otherwise the same. -/
theorem Parameter.resolve_change (hf : schema.Overlooks inputs f) {p : Parameter}
    (hp : p ∈ schema.params) (known : Resolution) :
    p.resolve ((inputs.get? p.name).map (f p.name)) (known.change f) =
      (p.resolve (inputs.get? p.name) known).map (Option.map fun v => (f p.name v.1, v.2)) := by
  unfold resolve
  cases hgiven : inputs.get? p.name with
  | some value =>
    simp only [Option.map_some, hf.check p hp value hgiven]
    cases p.check value <;> rfl
  | none =>
    cases hsource : p.nameSource with
    | none => rfl
    | some source =>
      cases p.nameTemplate with
      | none => rfl
      | some template =>
        simp only [Option.map_none, Resolution.value?_change]
        cases known.value? source with
        | none => rfl
        | some value =>
          simp only [Option.map_some, hf.derive p hp source hsource]
          unfold derive
          cases value.sourceText? with
          | none => rfl
          | some text =>
            simp only [bind, Except.bind]
            cases p.check (.text (template.apply (pathStem text))) with
            | error e => rfl
            | ok _ => simp [pure, Except.pure, Except.map, hf.derived p hp hgiven]

/-- Closing a name with what is found for it. -/
theorem Walk.close_change (hf : schema.Overlooks inputs f) {p : Parameter} (hp : p ∈ schema.params)
    (hname : p.name = name) (known : Walk) :
    (p.resolve ((inputs.map f).get? name) (known.change f).resolved >>= fun found =>
        .ok ((known.change f).leave name found)) =
      (p.resolve (inputs.get? name) known.resolved >>= fun found =>
        .ok (known.leave name found)).map (Walk.change f) := by
  rw [Table.get?_map, ← hname, Walk.change, Parameter.resolve_change hf hp]
  cases p.resolve (inputs.get? p.name) known.resolved with
  | error e => rfl
  | ok found => exact congrArg Except.ok (leave_change found)

/-- **A visit does not notice the change.** The induction is on the declared names that are not
being visited. -/
theorem Walk.visit_change (hf : schema.Overlooks inputs f) :
    (walk.change f).visit schema (inputs.map f) name =
      (walk.visit schema inputs name).map (Walk.change f) := by
  induction hn : walk.unvisited schema using Nat.strongRecOn generalizing name walk with
  | ind n ih =>
    cases hsettled : walk.isSettled name with
    | true =>
      rw [visit_of_isSettled hsettled, visit_of_isSettled (isSettled_change.trans hsettled)]
      rfl
    | false =>
      have hchanged : (walk.change f).isSettled name = false := isSettled_change.trans hsettled
      by_cases hvisiting : name ∈ walk.visiting
      · rw [visit_of_mem_visiting hsettled hvisiting, visit_of_mem_visiting hchanged hvisiting]
        rfl
      cases hp : schema.get? name with
      | none =>
        rw [visit_of_get?_eq_none hsettled hvisiting hp,
          visit_of_get?_eq_none hchanged hvisiting hp]
        rfl
      | some p =>
        obtain ⟨hmem, hname⟩ := Schema.get?_eq_some_iff.mp hp
        have hsource : ∀ source, ((walk.change f).enter name).visit schema (inputs.map f) source =
            ((walk.enter name).visit schema inputs source).map (Walk.change f) :=
          fun source => ih _ (hn ▸ unvisited_enter_lt hp hvisiting) rfl
        rw [visit_eq_bind hsettled hvisiting hp, visit_eq_bind hchanged hvisiting hp]
        have hclose := close_change hf hmem hname
        rw [Table.get?_map] at hclose ⊢
        cases hgiven : inputs.get? name with
        | some value =>
          rw [hgiven] at hclose
          exact hclose (walk.enter name)
        | none =>
          rw [hgiven] at hclose
          cases p.nameSource with
          | none => exact hclose (walk.enter name)
          | some source =>
            simp only [Option.map_none, hsource]
            cases (walk.enter name).visit schema inputs source with
            | error e => rfl
            | ok known => exact hclose known

/-! ### Resolutions -/

namespace Schema

theorem walk_change (hf : schema.Overlooks inputs f) :
    schema.walk (inputs.map f) = (schema.walk inputs).map (Walk.change f) := by
  have hempty : Walk.change f {} = {} := rfl
  rw [walk, ← hempty]
  exact foldlM_map fun walk p => Walk.visit_change hf

/-- **A change that is overlooked commutes with resolution**: the same inputs are resolved, and what is
resolved has the changed values. -/
theorem resolve_change (hf : schema.Overlooks inputs f) :
    schema.resolve (inputs.map f) = (schema.resolve inputs).map (Resolution.change f) := by
  have hundeclared : schema.undeclared? (inputs.map f) = schema.undeclared? inputs := by
    rw [undeclared?, Table.names_map, undeclared?]
  unfold resolve
  rw [hundeclared, walk_change hf]
  cases schema.undeclared? inputs with
  | some name => rfl
  | none =>
    cases schema.walk inputs with
    | error e => rfl
    | ok after =>
      have hmissing : schema.missing? (after.change f).resolved = schema.missing? after.resolved := by
        simp only [missing?, Walk.change, Resolution.change, Table.contains_map]
      simp only [Except.map, bind, Except.bind, hmissing]
      cases schema.missing? after.resolved with
      | some p => rfl
      | none => exact congrArg Except.ok (markSuppressed_change hf.isTruthy schema after.resolved)

end Schema

end Change

end ContainerCommand
