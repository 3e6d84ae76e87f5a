import ContainerCommand.Proofs.Schema.Lookup

/-! Which parameters make a schema, and which fault is named where they make none.

Declared parameters are read in order. The first that is at fault itself or repeats a name is the one
that is named (`firstFault?_eq_some_iff`), so parameters make a schema exactly if there is none
(`firstFault?_eq_none_iff`). Where a schema refers to what it does not declare, the first parameter
with such a reference is named, by its requirements before its source
(`findSome?_danglingOf?_eq_some_iff`). -/
namespace ContainerCommand

/-- A parameter needs another one by its name, or derives a name from it. -/
def Parameter.RefersTo (p : Parameter) (name : String) : Prop :=
  name ∈ p.requires ∨ p.nameSource = some name

namespace Schema

variable {schema : Schema} {params rest : List Parameter} {p : Parameter} {seen : List String}
  {fault : SchemaFault}

/-! ### Parameters at fault -/

theorem firstFault?_cons (hsound : p.fault? = none) (hnew : p.name ∉ seen) :
    firstFault? seen (p :: rest) = firstFault? (p.name :: seen) rest := by
  simp only [firstFault?, hsound, List.contains_eq_mem, hnew, decide_false, Bool.false_eq_true,
    if_false]

theorem firstFault?_eq_none_iff :
    firstFault? seen params = none ↔
      (∀ p ∈ params, p.fault? = none) ∧ (params.map Parameter.name).Nodup ∧
        ∀ p ∈ params, p.name ∉ seen := by
  refine ⟨of_firstFault?_eq_none, ?_⟩
  induction params generalizing seen with
  | nil => exact fun _ => rfl
  | cons p rest ih =>
    rintro ⟨hsound, hdistinct, hnew⟩
    rw [List.forall_mem_cons] at hsound hnew
    rw [List.map_cons, List.nodup_cons] at hdistinct
    rw [firstFault?_cons hsound.1 hnew.1]
    refine ih ⟨hsound.2, hdistinct.2, fun q hq hmem => ?_⟩
    rcases List.mem_cons.mp hmem with hname | hmem
    · exact hdistinct.1 (hname ▸ List.mem_map_of_mem hq)
    · exact hnew.2 q hq hmem

/-- The names of parameters without a fault are seen by those behind them. -/
theorem firstFault?_append {front : List Parameter} (h : firstFault? seen front = none) :
    firstFault? seen (front ++ rest) =
      firstFault? ((front.map Parameter.name).reverse ++ seen) rest := by
  induction front generalizing seen with
  | nil => rfl
  | cons p front ih =>
    obtain ⟨hsound, _, hnew⟩ := of_firstFault?_eq_none h
    rw [List.forall_mem_cons] at hsound hnew
    rw [firstFault?_cons hsound.1 hnew.1] at h
    rw [List.cons_append, firstFault?_cons hsound.1 hnew.1, ih h, List.map_cons, List.reverse_cons,
      List.append_assoc, List.singleton_append]

/-- A parameter cannot stand behind those of some names: it is at fault itself, or else it repeats
one of the names. -/
inductive Misplaced (names : List String) (p : Parameter) : SchemaFault → Prop
  | faulty {fault : SchemaFault} (hfault : p.fault? = some fault) : Misplaced names p fault
  | repeated (hsound : p.fault? = none) (hname : p.name ∈ names) :
      Misplaced names p (.duplicate p.name)

theorem Misplaced.mono {names others : List String} (h : Misplaced names p fault)
    (hnames : names ⊆ others) : Misplaced others p fault := by
  cases h with
  | faulty hfault => exact .faulty hfault
  | repeated hsound hname => exact .repeated hsound (hnames hname)

/-- A parameter is misplaced behind the names that are seen, or else it is seen as well. -/
theorem firstFault?_cons_eq_some_iff :
    firstFault? seen (p :: rest) = some fault ↔
      Misplaced seen p fault ∨
        p.fault? = none ∧ p.name ∉ seen ∧ firstFault? (p.name :: seen) rest = some fault := by
  cases hfault : p.fault? with
  | some own =>
    simp only [firstFault?, hfault, Option.some.injEq, reduceCtorEq, false_and, or_false]
    constructor
    · rintro rfl
      exact .faulty hfault
    · rintro (hown | ⟨hsound, _⟩)
      · exact Option.some.inj (hfault.symm.trans hown)
      · cases hfault.symm.trans hsound
  | none =>
    by_cases hname : p.name ∈ seen
    · simp only [firstFault?, hfault, List.contains_eq_mem, hname, decide_true, if_true,
        Option.some.injEq, not_true_eq_false, false_and, and_false, or_false]
      constructor
      · rintro rfl
        exact .repeated hfault hname
      · rintro (hown | _)
        · cases hfault.symm.trans hown
        · rfl
    · rw [firstFault?_cons hfault hname]
      refine ⟨fun h => .inr ⟨rfl, hname, h⟩, ?_⟩
      rintro ((hown | ⟨_, hmem⟩) | ⟨_, _, h⟩)
      · cases hfault.symm.trans hown
      · exact absurd hmem hname
      · exact h

/-- **The first misplaced parameter is the one that is named**: there is none among those in front
of it. -/
theorem firstFault?_eq_some_iff :
    firstFault? seen params = some fault ↔
      ∃ front p back, params = front ++ p :: back ∧ firstFault? seen front = none ∧
        Misplaced (front.map Parameter.name ++ seen) p fault := by
  induction params generalizing seen with
  | nil => simp [firstFault?]
  | cons p rest ih =>
    -- The name of the first parameter goes from those that are declared to those that are seen.
    have hnames : ∀ front : List Parameter, front.map Parameter.name ++ p.name :: seen ⊆
          (p :: front).map Parameter.name ++ seen ∧
        (p :: front).map Parameter.name ++ seen ⊆ front.map Parameter.name ++ p.name :: seen :=
      fun front => ⟨List.perm_middle.subset, List.perm_middle.symm.subset⟩
    rw [firstFault?_cons_eq_some_iff, ih]
    constructor
    · rintro (h | ⟨hsound, hnew, front, q, back, rfl, hfront, hq⟩)
      · exact ⟨[], p, rest, rfl, rfl, h⟩
      · exact ⟨p :: front, q, back, rfl, by rw [firstFault?_cons hsound hnew, hfront],
          hq.mono (hnames front).1⟩
    · rintro ⟨front, q, back, hsplit, hfront, hq⟩
      cases front with
      | nil =>
        cases hsplit
        exact .inl hq
      | cons first front =>
        cases hsplit
        obtain ⟨hsound, _, hnew⟩ := of_firstFault?_eq_none hfront
        rw [List.forall_mem_cons] at hsound hnew
        rw [firstFault?_cons hsound.1 hnew.1] at hfront
        exact .inr ⟨hsound.1, hnew.1, front, q, back, rfl, hfront, hq.mono (hnames front).2⟩

/-- Parameters that are sound and distinct make no schema only for the names that are seen. -/
theorem firstFault?_eq_some_iff_of_distinct (hsound : ∀ p ∈ params, p.fault? = none)
    (hdistinct : (params.map Parameter.name).Nodup) :
    firstFault? seen params = some fault ↔
      ∃ front p back, params = front ++ p :: back ∧ (∀ q ∈ front, q.name ∉ seen) ∧
        p.name ∈ seen ∧ fault = .duplicate p.name := by
  rw [firstFault?_eq_some_iff]
  constructor
  · rintro ⟨front, p, back, rfl, hfront, hp⟩
    rw [List.map_append, List.nodup_append] at hdistinct
    cases hp with
    | faulty hfault => cases (hsound p (by simp)).symm.trans hfault
    | repeated _ hname =>
      rcases List.mem_append.mp hname with hmem | hmem
      · exact absurd rfl (hdistinct.2.2 p.name hmem p.name (by simp))
      · exact ⟨front, p, back, rfl, (of_firstFault?_eq_none hfront).2.2, hmem, rfl⟩
  · rintro ⟨front, p, back, rfl, hfront, hp, rfl⟩
    rw [List.map_append, List.nodup_append] at hdistinct
    refine ⟨front, p, back, rfl, firstFault?_eq_none_iff.mpr ⟨fun q hq => ?_, hdistinct.1, hfront⟩,
      .repeated (hsound p (by simp)) (List.mem_append_right _ hp)⟩
    exact hsound q (List.mem_append_left _ hq)

/-! ### Schemas of parameters -/

/-- Schemas that declare the same parameters in the same order are the same. -/
theorem eq_of_params_eq {other : Schema} (h : schema.params = other.params) : schema = other := by
  cases schema
  cases other
  cases h
  rfl

theorem firstFault?_params : firstFault? [] schema.params = none :=
  firstFault?_eq_none_iff.mpr ⟨schema.sound, schema.distinct, fun _ _ => List.not_mem_nil⟩

theorem params_ofList (h : ofList params = .ok schema) : schema.params = params := by
  unfold ofList at h
  split at h <;> cases h
  rfl

theorem ofList_eq_ok_iff : ofList params = .ok schema ↔ schema.params = params := by
  refine ⟨params_ofList, ?_⟩
  rintro rfl
  unfold ofList
  split
  · rename_i fault hfault
    cases firstFault?_params.symm.trans hfault
  · rfl

theorem ofList_eq_error_iff {e : CompileError} :
    ofList params = .error e ↔ ∃ fault, firstFault? [] params = some fault ∧
      e = .invalidSchema fault := by
  unfold ofList
  split
  · rename_i fault hfault
    rw [Except.error.injEq]
    constructor
    · rintro rfl
      exact ⟨fault, hfault, rfl⟩
    · rintro ⟨other, hother, rfl⟩
      rw [Option.some.inj (hfault.symm.trans hother)]
  · rename_i hnone
    constructor
    · rintro ⟨⟩
    · rintro ⟨fault, hfault, _⟩
      cases hnone.symm.trans hfault

theorem exists_ofList_iff :
    (∃ schema, ofList params = .ok schema) ↔ firstFault? [] params = none := by
  constructor
  · rintro ⟨schema, h⟩
    rw [← params_ofList h]
    exact firstFault?_params
  · intro h
    cases hbuilt : ofList params with
    | ok schema => exact ⟨schema, rfl⟩
    | error e =>
      obtain ⟨fault, hfault, _⟩ := ofList_eq_error_iff.mp hbuilt
      cases h.symm.trans hfault

/-! ### References that dangle -/

/-- What a parameter refers to is not all declared. The first requirement that is not is the one that
is named, and the source only where all requirements are. -/
inductive Dangles (declared : String → Prop) (p : Parameter) : SchemaFault → Prop
  | requirement {front back : List String} {required : String}
      (hrequires : p.requires = front ++ required :: back) (hfront : ∀ name ∈ front, declared name)
      (hrequired : ¬ declared required) : Dangles declared p (.unknownRequirement p.name required)
  | source {source : String} (hrequires : ∀ name ∈ p.requires, declared name)
      (hsource : p.nameSource = some source) (hundeclared : ¬ declared source) :
      Dangles declared p (.unknownSource p.name source)

theorem find?_requires_eq_none_iff :
    p.requires.find? (!schema.contains ·) = none ↔
      ∀ name ∈ p.requires, schema.contains name = true := by
  simp [List.find?_eq_none]

theorem filter_nameSource_eq_none_iff :
    p.nameSource.filter (!schema.contains ·) = none ↔
      ∀ source, p.nameSource = some source → schema.contains source = true := by
  simp [Option.filter_eq_none_iff]

theorem danglingOf?_eq_none_iff :
    schema.danglingOf? p = none ↔ ∀ name, p.RefersTo name → schema.contains name = true := by
  simp only [Parameter.RefersTo, or_imp, forall_and, ← find?_requires_eq_none_iff,
    ← filter_nameSource_eq_none_iff]
  rw [danglingOf?, Parameter.dangling?]
  cases p.requires.find? (!schema.contains ·) with
  | some required => simp
  | none => simp

theorem danglingOf?_eq_some_iff :
    schema.danglingOf? p = some fault ↔ Dangles (schema.contains · = true) p fault := by
  rw [danglingOf?, Parameter.dangling?]
  cases hrequired : p.requires.find? (!schema.contains ·) with
  | some required =>
    obtain ⟨hunknown, front, back, hsplit, hfront⟩ := List.find?_eq_some_iff_append.mp hrequired
    simp only [Bool.not_eq_true', Bool.not_not] at hunknown hfront
    rw [Option.some.injEq]
    constructor
    · rintro rfl
      exact .requirement hsplit hfront (by simp [hunknown])
    · rintro (⟨hrequires, hall, hnot⟩ | ⟨hall, _, _⟩)
      · have hfound : p.requires.find? (!schema.contains ·) = some _ :=
          List.find?_eq_some_iff_append.mpr ⟨by simpa using hnot, _, _, hrequires, by simpa using hall⟩
        rw [Option.some.inj (hrequired.symm.trans hfound)]
      · cases hrequired.symm.trans (find?_requires_eq_none_iff.mpr hall)
  | none =>
    have hall := find?_requires_eq_none_iff.mp hrequired
    simp only [Option.map_eq_some_iff, Option.filter_eq_some_iff]
    constructor
    · rintro ⟨source, ⟨hsource, hunknown⟩, rfl⟩
      exact .source hall hsource (by simpa using hunknown)
    · rintro (⟨hrequires, _, hnot⟩ | ⟨_, hsource, hnot⟩)
      · exact absurd (hall _ (hrequires ▸ List.mem_append_right _ (List.mem_cons_self ..))) hnot
      · exact ⟨_, ⟨hsource, by simpa using hnot⟩, rfl⟩

theorem findSome?_danglingOf?_eq_none_iff :
    params.findSome? schema.danglingOf? = none ↔
      ∀ p ∈ params, ∀ name, p.RefersTo name → schema.contains name = true := by
  simp only [List.findSome?_eq_none_iff, danglingOf?_eq_none_iff]

/-- **The first parameter that refers to what is not declared is the one that is named.** -/
theorem findSome?_danglingOf?_eq_some_iff :
    params.findSome? schema.danglingOf? = some fault ↔
      ∃ front p back, params = front ++ p :: back ∧
        (∀ q ∈ front, ∀ name, q.RefersTo name → schema.contains name = true) ∧
        Dangles (schema.contains · = true) p fault := by
  simp only [List.findSome?_eq_some_iff, danglingOf?_eq_none_iff, danglingOf?_eq_some_iff]
  constructor
  · rintro ⟨front, p, back, hsplit, hp, hfront⟩
    exact ⟨front, p, back, hsplit, hfront, hp⟩
  · rintro ⟨front, p, back, hsplit, hfront, hp⟩
    exact ⟨front, p, back, hsplit, hp, hfront⟩

theorem checkReferences_eq_ok_iff {u : Unit} :
    schema.checkReferences = .ok u ↔ schema.dangling? = none := by
  unfold checkReferences
  split
  · rename_i fault hfault
    simp [hfault]
  · rename_i hnone
    simp [hnone]

theorem checkReferences_eq_error_iff {e : CompileError} :
    schema.checkReferences = .error e ↔ ∃ fault, schema.dangling? = some fault ∧
      e = .invalidSchema fault := by
  unfold checkReferences
  split
  · rename_i fault hfault
    simp [hfault, eq_comm]
  · rename_i hnone
    simp [hnone]

end Schema

end ContainerCommand
