import ContainerCommand.Proofs.Schema.Faults

/-! Merging schemas.

A merged schema declares what the two declare, and only a name that both declare or a reference that
neither resolves keeps them apart: moving parameters back makes none of them contradict itself
(`merge_outcome`). Positions are moved by the first schema's last leading position, and these add up
(`maxLeading_merge`), so that three schemas are merged alike from either side (`eq_of_merge_merge`). -/
namespace ContainerCommand

namespace Parameter

variable {p : Parameter} {offset m n : Int}

theorem position_shift_of_leads (hn : p.position = some n) (hleads : 0 ≤ n) :
    (p.shift offset).position = some (n + offset) := by
  rw [shift, hn, Option.map_some, if_pos hleads]

theorem position_shift_of_trails (hn : p.position = some n) (htrails : ¬ 0 ≤ n) :
    (p.shift offset).position = some n := by
  rw [shift, hn, Option.map_some, if_neg htrails]

theorem position_shift_of_none (hn : p.position = none) :
    (p.shift offset).position = none := by
  rw [shift, hn, Option.map_none]

/-- A parameter that is moved back stays in its group. -/
theorem group_shift (hoffset : 0 ≤ offset) : (p.shift offset).group = p.group := by
  unfold group Group.ofPosition
  cases hn : p.position with
  | none => rw [position_shift_of_none hn]
  | some n =>
    by_cases hleads : 0 ≤ n
    · rw [position_shift_of_leads hn hleads]
      simp only [hleads, if_true, if_pos (Int.add_nonneg hleads hoffset)]
    · rw [position_shift_of_trails hn hleads]

theorem shift_zero (p : Parameter) : p.shift 0 = p := by
  simp [shift]

/-- Moving a parameter back twice moves it back by both offsets. -/
theorem shift_shift (hm : 0 ≤ m) : (p.shift m).shift n = p.shift (m + n) := by
  cases hposition : p.position with
  | none => simp [shift, hposition]
  | some k =>
    by_cases hleads : 0 ≤ k
    · have hmoved : 0 ≤ k + m := Int.add_nonneg hleads hm
      simp [shift, hposition, hleads, hmoved, Int.add_assoc]
    · simp [shift, hposition, hleads]

end Parameter

namespace Schema

variable {schema base extension merged : Schema} {p : Parameter} {name : String}

/-! ### Leading positions -/

/-- The largest leading position is the least bound of the positions that is not negative. -/
theorem maxLeading_le_iff {n : Int} :
    schema.maxLeading ≤ n ↔
      0 ≤ n ∧ ∀ p ∈ schema.params, ∀ m, p.position = some m → m ≤ n := by
  have hpositions : (∀ p ∈ schema.params, ∀ m, p.position = some m → m ≤ n) ↔
      ∀ m ∈ schema.params.filterMap Parameter.position, m ≤ n := by
    simp only [List.mem_filterMap, forall_exists_index, and_imp]
    exact ⟨fun h m p hp hm => h p hp m hm, fun h p hp m hm => h m p hp hm⟩
  rw [maxLeading, Parameter.lastLead, hpositions]
  cases schema.params.filterMap Parameter.position with
  | nil => simp
  | cons m rest =>
    rw [List.foldl_max_eq_max (List.cons_ne_nil m rest), Int.max_le, List.max_le_iff]

theorem maxLeading_nonneg : 0 ≤ schema.maxLeading :=
  (maxLeading_le_iff.mp (Int.le_refl _)).1

theorem le_maxLeading {n : Int} (hp : p ∈ schema.params) (hn : p.position = some n) :
    n ≤ schema.maxLeading :=
  (maxLeading_le_iff.mp (Int.le_refl _)).2 p hp n hn

/-! ### Merged schemas -/

theorem merge_eq_ok_iff :
    base.merge extension = .ok merged ↔
      merged.params = base.params ++ extension.params.map (·.shift base.maxLeading) ∧
        merged.dangling? = none := by
  simp only [merge, bind_eq_ok_iff, pure_eq_ok_iff, ofList_eq_ok_iff, checkReferences_eq_ok_iff]
  constructor
  · rintro ⟨built, hparams, _, hchecked, rfl⟩
    exact ⟨hparams, hchecked⟩
  · rintro ⟨hparams, hchecked⟩
    exact ⟨merged, hparams, (), hchecked, rfl⟩

/-- The second schema's parameters follow the first one's, moved behind its leading ones. -/
theorem params_merge (h : base.merge extension = .ok merged) :
    merged.params = base.params ++ extension.params.map (·.shift base.maxLeading) :=
  (merge_eq_ok_iff.mp h).1

/-- The last leading position of a merged schema is that of the first schema's parameters and that of
the second one's behind it. -/
theorem maxLeading_merge (h : base.merge extension = .ok merged) :
    merged.maxLeading = base.maxLeading + extension.maxLeading := by
  have hbase : 0 ≤ base.maxLeading := maxLeading_nonneg
  have hextension : 0 ≤ extension.maxLeading := maxLeading_nonneg
  have hparams := params_merge h
  have hfirst : base.maxLeading ≤ merged.maxLeading :=
    maxLeading_le_iff.mpr ⟨maxLeading_nonneg, fun p hp n hn =>
      le_maxLeading (hparams ▸ List.mem_append_left _ hp) hn⟩
  apply Int.le_antisymm
  · refine maxLeading_le_iff.mpr ⟨by omega, fun p hp n hn => ?_⟩
    rw [hparams, List.mem_append, List.mem_map] at hp
    rcases hp with hp | ⟨q, hq, rfl⟩
    · have hle := le_maxLeading hp hn
      omega
    · cases hm : q.position with
      | none => cases (Parameter.position_shift_of_none hm).symm.trans hn
      | some m =>
        have hle := le_maxLeading hq hm
        by_cases hleads : 0 ≤ m
        · cases (Parameter.position_shift_of_leads hm hleads).symm.trans hn
          omega
        · cases (Parameter.position_shift_of_trails hm hleads).symm.trans hn
          omega
  · -- Whatever leads in the extension stands behind the base's last leading position.
    have hbehind : extension.maxLeading ≤ merged.maxLeading - base.maxLeading := by
      refine maxLeading_le_iff.mpr ⟨by omega, fun q hq m hm => ?_⟩
      by_cases hleads : 0 ≤ m
      · have hmem : q.shift base.maxLeading ∈ merged.params :=
          hparams ▸ List.mem_append_right _ (List.mem_map_of_mem hq)
        have hle := le_maxLeading hmem (Parameter.position_shift_of_leads hm hleads)
        omega
      · omega
    omega

/-! ### What keeps schemas apart -/

/-- No name is declared in both schemas. -/
def Apart (base extension : Schema) : Prop :=
  ∀ name, base.contains name = true → extension.contains name = false

/-- A name is declared in one of two schemas. -/
def Declares (base extension : Schema) (name : String) : Prop :=
  base.contains name = true ∨ extension.contains name = true

/-- Two schemas cannot be merged. The first parameter of the extension whose name the base declares as
well is the one that is named. Where there is none it is the first parameter of both, the base's in
front, that refers to what neither declares. -/
inductive Unmergeable (base extension : Schema) : SchemaFault → Prop
  | shared {front back : List Parameter} {p : Parameter}
      (hsplit : extension.params = front ++ p :: back)
      (hfront : ∀ q ∈ front, base.contains q.name = false) (hshared : base.contains p.name = true) :
      Unmergeable base extension (.duplicate p.name)
  | unresolved {front back : List Parameter} {p : Parameter} {fault : SchemaFault}
      (hapart : base.Apart extension) (hsplit : base.params ++ extension.params = front ++ p :: back)
      (hfront : ∀ q ∈ front, ∀ name, q.RefersTo name → base.Declares extension name)
      (hp : Dangles (base.Declares extension) p fault) : Unmergeable base extension fault

variable {fault : SchemaFault}

theorem apart_iff :
    base.Apart extension ↔ ∀ q ∈ extension.params, base.contains q.name = false := by
  constructor
  · intro h q hq
    rw [← Bool.not_eq_true]
    intro hbase
    cases (h q.name hbase).symm.trans (contains_iff.mpr ⟨q, hq, rfl⟩)
  · intro h name hbase
    rw [← Bool.not_eq_true, contains_iff]
    rintro ⟨q, hq, rfl⟩
    cases (h q hq).symm.trans hbase

theorem fault?_map_shift {offset : Int} :
    ∀ p ∈ schema.params.map (·.shift offset), p.fault? = none := by
  simpa using schema.sound

theorem distinct_map_shift {offset : Int} :
    ((schema.params.map (·.shift offset)).map Parameter.name).Nodup := by
  rw [List.map_map]
  exact schema.distinct

theorem mem_reverse_names_iff :
    name ∈ (schema.params.map Parameter.name).reverse ++ [] ↔ schema.contains name = true := by
  rw [contains_iff, List.append_nil, List.mem_reverse, List.mem_map]

/-- Moving the extension's parameters back makes none of them contradict itself, so that only a name
of the base is at fault. -/
theorem firstFault?_merge_eq_some_iff {offset : Int} :
    firstFault? [] (base.params ++ extension.params.map (·.shift offset)) = some fault ↔
      ∃ front p back, extension.params = front ++ p :: back ∧
        (∀ q ∈ front, base.contains q.name = false) ∧ base.contains p.name = true ∧
        fault = .duplicate p.name := by
  rw [firstFault?_append firstFault?_params,
    firstFault?_eq_some_iff_of_distinct fault?_map_shift distinct_map_shift]
  simp only [mem_reverse_names_iff, Bool.not_eq_true]
  constructor
  · rintro ⟨_, _, _, hsplit, hfront, hp, rfl⟩
    obtain ⟨front, others, hextension, rfl, hothers⟩ := List.map_eq_append_iff.mp hsplit
    obtain ⟨p, back, rfl, rfl, _⟩ := List.map_eq_cons_iff.mp hothers
    exact ⟨front, p, back, hextension, by simpa using hfront, hp, rfl⟩
  · rintro ⟨front, p, back, hextension, hfront, hp, rfl⟩
    exact ⟨front.map (·.shift offset), p.shift offset, back.map (·.shift offset),
      by rw [hextension, List.map_append, List.map_cons], by simpa using hfront, hp, rfl⟩

theorem firstFault?_merge_eq_none_iff {offset : Int} :
    firstFault? [] (base.params ++ extension.params.map (·.shift offset)) = none ↔
      base.Apart extension := by
  rw [firstFault?_append firstFault?_params, firstFault?_eq_none_iff, apart_iff]
  simp only [mem_reverse_names_iff, Bool.not_eq_true]
  constructor
  · rintro ⟨_, _, hnew⟩ q hq
    exact hnew (q.shift offset) (List.mem_map_of_mem hq)
  · exact fun h => ⟨fault?_map_shift, distinct_map_shift, by simpa using h⟩

section Merged

variable (hparams : merged.params =
  base.params ++ extension.params.map (·.shift base.maxLeading))

include hparams

theorem contains_merged : (merged.contains · = true) = base.Declares extension := by
  funext name
  simp [contains, Declares, hparams]

/-- Moving a parameter back leaves what it refers to. -/
theorem dangling?_merged :
    merged.dangling? = (base.params ++ extension.params).findSome? merged.danglingOf? := by
  rw [dangling?, hparams, List.findSome?_append, List.findSome?_append, List.findSome?_map]
  rfl

theorem dangling?_merged_eq_none_iff :
    merged.dangling? = none ↔ ∀ p ∈ base.params ++ extension.params,
      ∀ name, p.RefersTo name → base.Declares extension name := by
  rw [dangling?_merged hparams, findSome?_danglingOf?_eq_none_iff, ← contains_merged hparams]

theorem dangling?_merged_eq_some_iff :
    merged.dangling? = some fault ↔
      ∃ front p back, base.params ++ extension.params = front ++ p :: back ∧
        (∀ q ∈ front, ∀ name, q.RefersTo name → base.Declares extension name) ∧
        Dangles (base.Declares extension) p fault := by
  rw [dangling?_merged hparams, findSome?_danglingOf?_eq_some_iff, ← contains_merged hparams]

end Merged

theorem exists_merge_iff :
    (∃ merged, base.merge extension = .ok merged) ↔
      base.Apart extension ∧ ∀ p ∈ base.params ++ extension.params,
        ∀ name, p.RefersTo name → base.Declares extension name := by
  constructor
  · rintro ⟨merged, h⟩
    obtain ⟨hparams, hresolved⟩ := merge_eq_ok_iff.mp h
    exact ⟨firstFault?_merge_eq_none_iff.mp (hparams ▸ firstFault?_params),
      (dangling?_merged_eq_none_iff hparams).mp hresolved⟩
  · rintro ⟨hapart, hresolved⟩
    obtain ⟨merged, hbuilt⟩ := exists_ofList_iff.mpr (firstFault?_merge_eq_none_iff.mpr hapart)
    have hparams := params_ofList hbuilt
    exact ⟨merged, merge_eq_ok_iff.mpr
      ⟨hparams, (dangling?_merged_eq_none_iff hparams).mpr hresolved⟩⟩

/-- Merged schemas share no name. -/
theorem apart_of_merge (h : base.merge extension = .ok merged) : base.Apart extension :=
  (exists_merge_iff.mp ⟨merged, h⟩).1

theorem contains_eq_false_of_merge (h : base.merge extension = .ok merged) (hp : p ∈ base.params) :
    extension.contains p.name = false :=
  apart_of_merge h p.name (contains_iff.mpr ⟨p, hp, rfl⟩)

theorem merge_eq_error_iff {e : CompileError} :
    base.merge extension = .error e ↔
      ∃ fault, e = .invalidSchema fault ∧ Unmergeable base extension fault := by
  have hchecked : ∀ merged : Schema, (do merged.checkReferences; return merged) = .error e ↔
      ∃ fault, merged.dangling? = some fault ∧ e = .invalidSchema fault :=
    fun _ => bind_pure_eq_error_iff.trans checkReferences_eq_error_iff
  rw [merge, bind_eq_error_iff]
  simp only [hchecked, ofList_eq_error_iff, firstFault?_merge_eq_some_iff, ofList_eq_ok_iff]
  constructor
  · rintro (⟨_, ⟨front, p, back, hsplit, hfront, hp, rfl⟩, rfl⟩ | ⟨merged, hparams, fault, h, rfl⟩)
    · exact ⟨_, rfl, .shared hsplit hfront hp⟩
    · have hapart := firstFault?_merge_eq_none_iff.mp (hparams ▸ firstFault?_params)
      obtain ⟨front, p, back, hsplit, hfront, hp⟩ := (dangling?_merged_eq_some_iff hparams).mp h
      exact ⟨fault, rfl, .unresolved hapart hsplit hfront hp⟩
  · rintro ⟨fault, rfl, hfault⟩
    cases hfault with
    | shared hsplit hfront hshared => exact .inl ⟨_, ⟨_, _, _, hsplit, hfront, hshared, rfl⟩, rfl⟩
    | unresolved hapart hsplit hfront hp =>
      obtain ⟨merged, hbuilt⟩ := exists_ofList_iff.mpr (firstFault?_merge_eq_none_iff.mpr hapart)
      have hparams := params_ofList hbuilt
      exact .inr ⟨merged, hparams, fault,
        (dangling?_merged_eq_some_iff hparams).mpr ⟨_, _, _, hsplit, hfront, hp⟩, rfl⟩

/-! ### The main statements -/

/-- **Schemas are merged exactly if they declare no name twice and resolve each other's references.**
A name that both declare is the first of the extension that the base declares as well, and is named
whatever dangles. Otherwise the first parameter with an unresolved reference is named, the base's in
front of the extension's and a parameter's requirements in front of its source. Moving a parameter
back makes it at fault in no case. -/
theorem merge_outcome (base extension : Schema) :
    ((∃ merged, base.merge extension = .ok merged) ↔
        base.Apart extension ∧ ∀ p ∈ base.params ++ extension.params,
          ∀ name, p.RefersTo name → base.Declares extension name) ∧
      (∀ error, base.merge extension = .error error ↔
        ∃ fault, error = .invalidSchema fault ∧ base.Unmergeable extension fault) ∧
      ∀ p ∈ extension.params, (p.shift base.maxLeading).fault? = none :=
  ⟨exists_merge_iff, fun _ => merge_eq_error_iff,
    fun _ hp => fault?_map_shift _ (List.mem_map_of_mem hp)⟩

/-- Merging three schemas from the left moves the last one back once, by what both in front lead by,
and merging them from the right moves it twice. -/
theorem eq_of_merge_merge {a b c ab bc left right : Schema} (hab : a.merge b = .ok ab)
    (hleft : ab.merge c = .ok left) (hbc : b.merge c = .ok bc) (hright : a.merge bc = .ok right) :
    left = right := by
  apply eq_of_params_eq
  calc left.params
      = a.params ++ b.params.map (·.shift a.maxLeading) ++
          c.params.map (·.shift (a.maxLeading + b.maxLeading)) := by
        rw [params_merge hleft, params_merge hab, maxLeading_merge hab]
    _ = a.params ++ (b.params ++ c.params.map (·.shift b.maxLeading)).map
          (·.shift a.maxLeading) := by
        rw [List.append_assoc, List.map_append, List.map_map]
        congr 3
        funext p
        rw [Function.comp_apply, Parameter.shift_shift maxLeading_nonneg, Int.add_comm]
    _ = right.params := by rw [params_merge hright, params_merge hbc]

theorem merge_empty_iff : base.merge empty = .ok base ↔ base.checkReferences = .ok () := by
  rw [merge_eq_ok_iff, checkReferences_eq_ok_iff]
  simp [empty]

theorem empty_merge_iff : empty.merge base = .ok base ↔ base.checkReferences = .ok () := by
  rw [merge_eq_ok_iff, checkReferences_eq_ok_iff]
  simp [empty, maxLeading, Parameter.lastLead, Parameter.shift_zero]

/-- The parameter of a name has the group in the merged schema that it was declared with. -/
theorem group_of_merge (h : base.merge extension = .ok merged)
    (hp : p ∈ base.params ++ extension.params) :
    (merged.get? p.name).map Parameter.group = some p.group := by
  have hparams := params_merge h
  rcases List.mem_append.mp hp with hp | hp
  · rw [get?_name (hparams ▸ List.mem_append_left _ hp), Option.map_some]
  · have hmem : p.shift base.maxLeading ∈ merged.params :=
      hparams ▸ List.mem_append_right _ (List.mem_map_of_mem hp)
    rw [← Parameter.name_shift p base.maxLeading, get?_name hmem, Option.map_some,
      Parameter.group_shift maxLeading_nonneg]

end Schema

end ContainerCommand
