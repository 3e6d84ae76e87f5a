import ContainerCommand.Proofs.Schema.Merging
import ContainerCommand.Schema.Catalogue

/-! What catalogues find.

Reading parameters into an index names the fault that searching them names (`Catalogue.enter_eq`), and
leaves each of them at its place. So a schema and its catalogue (`Schema.catalogue`) are built alike
(`Catalogue.ofList_eq_map`), merged alike (`Catalogue.merge_catalogue`) and answer alike
(`Schema.get?_catalogue`), and every catalogue that can be built, however often it was merged, is that
of a schema (`Catalogue.Built.exists_schema`). What holds of merging schemas holds with their indices
(`Schema.merge_monoid`). -/
namespace ContainerCommand

namespace Catalogue

/-- The names of parameters with their places, the first of which is `place`. -/
def places (place : Nat) (params : List Parameter) : List (String × Nat) :=
  (params.zipIdx place).map fun e => (e.1.name, e.2)

variable {params : List Parameter} {place : Nat}

theorem names_places : (places place params).map Prod.fst = params.map Parameter.name := by
  rw [places, List.map_map]
  show (params.zipIdx place).map (Parameter.name ∘ Prod.fst) = _
  rw [← List.map_map, List.zipIdx_map_fst]

theorem mem_places {i : Nat} {p : Parameter} (h : params[i]? = some p) :
    (p.name, i) ∈ places 0 params :=
  List.mem_map.mpr ⟨(p, i), List.mk_mem_zipIdx_iff_getElem?.mpr h, rfl⟩

/-- Reading parameters into an index that has the seen names finds the first fault, or else leaves
their places. -/
theorem enter_eq {seen : List String} {index : Table Nat}
    (hseen : ∀ name, index.contains name = true ↔ name ∈ seen) :
    enter place index params =
      match Schema.firstFault? seen params with
      | some fault => .error (.invalidSchema fault)
      | none => .ok ((places place params).foldl (fun t e => t.insert e.1 e.2) index) := by
  induction params generalizing place seen index with
  | nil => rfl
  | cons p rest ih =>
    unfold enter
    cases hfault : p.fault? with
    | some fault => simp only [Schema.firstFault?, hfault]
    | none =>
      have hplace := hseen p.name
      rw [Table.contains, Option.isSome_iff_exists] at hplace
      by_cases hname : p.name ∈ seen
      · obtain ⟨other, hother⟩ := hplace.mpr hname
        simp only [Schema.firstFault?, hfault, hother, List.contains_eq_mem, hname, decide_true,
          if_true]
      · have hnew : index.get? p.name = none := by
          rw [Option.eq_none_iff_forall_ne_some]
          exact fun other hother => hname (hplace.mp ⟨other, hother⟩)
        have hnext : ∀ name, (index.insert p.name place).contains name = true ↔
            name ∈ p.name :: seen := by
          intro name
          rw [Table.contains_insert, hseen, List.mem_cons]
        rw [Schema.firstFault?_cons hfault hname]
        simp only [hnew, ih hnext]
        rfl

end Catalogue

namespace Schema

variable {schema : Schema} {name : String}

/-- The catalogue of a schema's parameters. -/
def catalogue (schema : Schema) : Catalogue where
  params := schema.params
  index := .ofList (Catalogue.places 0 schema.params)

/-! ### Looking parameters up -/

theorem get?_index_catalogue {i : Nat} {p : Parameter} (h : schema.params[i]? = some p) :
    schema.catalogue.index.get? p.name = some i :=
  Table.get?_ofList_of_mem (Catalogue.names_places ▸ schema.distinct) (Catalogue.mem_places h)

theorem get?_index_catalogue_eq_none (h : schema.contains name = false) :
    schema.catalogue.index.get? name = none := by
  have hname : name ∉ (Catalogue.places 0 schema.params).map Prod.fst := by
    rw [Catalogue.names_places]
    simpa [contains] using h
  exact (Table.get?_foldl_insert_of_not_mem hname ∅).trans (Table.get?_empty name)

/-- **A catalogue finds what searching the parameters finds**, and at every place that its index tells
there is a parameter. -/
theorem get?_catalogue (schema : Schema) (name : String) :
    schema.catalogue.get? name = (schema.get? name).map some := by
  rw [Catalogue.get?]
  cases hp : schema.get? name with
  | none => rw [get?_index_catalogue_eq_none (get?_eq_none_iff.mp hp)]; rfl
  | some p =>
    obtain ⟨hmem, rfl⟩ := get?_eq_some_iff.mp hp
    obtain ⟨i, hi⟩ := List.mem_iff_getElem?.mp hmem
    rw [get?_index_catalogue hi]
    exact congrArg some hi

theorem contains_catalogue (schema : Schema) : schema.catalogue.contains = schema.contains := by
  funext name
  have hfound := congrArg Option.isSome (get?_catalogue schema name)
  rw [Catalogue.get?, Option.isSome_map, Option.isSome_map] at hfound
  rw [Catalogue.contains, Table.contains, hfound]
  cases hp : schema.get? name with
  | none => exact (get?_eq_none_iff.mp hp).symm
  | some p => exact (contains_iff.mpr ⟨p, get?_eq_some_iff.mp hp⟩).symm

end Schema

namespace Catalogue

variable {params declared : List Parameter} {catalogue : Catalogue}

/-! ### Building catalogues -/

/-- Parameters make the catalogue of the schema that they make, and none where they make none. -/
theorem ofList_eq_map (params : List Parameter) :
    ofList params = (Schema.ofList params).map Schema.catalogue := by
  have hseen : ∀ name, (∅ : Table Nat).contains name = true ↔ name ∈ ([] : List String) := by
    intro name
    simp [Table.contains]
  rw [ofList, enter_eq hseen]
  cases hbuilt : Schema.ofList params with
  | ok schema =>
    obtain rfl := Schema.params_ofList hbuilt
    rw [Schema.firstFault?_params]
    rfl
  | error e =>
    obtain ⟨fault, hfault, rfl⟩ := Schema.ofList_eq_error_iff.mp hbuilt
    rw [hfault]
    rfl

/-- Catalogues of schemas are merged as the schemas are. -/
theorem merge_catalogue (base extension : Schema) :
    base.catalogue.merge extension.catalogue = (base.merge extension).map Schema.catalogue := by
  unfold merge Schema.merge
  show (ofList (base.params ++ extension.params.map (·.shift base.maxLeading)) >>= _) = _
  rw [ofList_eq_map]
  cases Schema.ofList (base.params ++ extension.params.map (·.shift base.maxLeading)) with
  | error e => rfl
  | ok merged =>
    show (match merged.params.findSome? (·.dangling? merged.catalogue.contains) with
      | some fault => .error (.invalidSchema fault)
      | none => .ok merged.catalogue) = (merged.checkReferences >>= fun _ => .ok merged).map _
    rw [Schema.contains_catalogue, Schema.checkReferences]
    show (match merged.dangling? with | some fault => _ | none => _) = _
    cases merged.dangling? <;> rfl

theorem merge_merge_catalogue (a b c : Schema) :
    (do (← a.catalogue.merge b.catalogue).merge c.catalogue) =
      (do (← a.merge b).merge c).map Schema.catalogue := by
  rw [merge_catalogue]
  cases a.merge b with
  | error e => rfl
  | ok merged => exact merge_catalogue merged c

theorem merge_catalogue_merge (a b c : Schema) :
    (do a.catalogue.merge (← b.catalogue.merge c.catalogue)) =
      (do a.merge (← b.merge c)).map Schema.catalogue := by
  rw [merge_catalogue]
  cases b.merge c with
  | error e => rfl
  | ok merged => exact merge_catalogue a merged

/-- A catalogue can be built of declared parameters: it was read from them, is empty or was merged. -/
inductive Built : Catalogue → List Parameter → Prop
  | listed {catalogue : Catalogue} {params : List Parameter} :
      ofList params = .ok catalogue → Built catalogue params
  | empty : Built empty []
  | merged {base extension catalogue : Catalogue} {first second : List Parameter} :
      Built base first → Built extension second → base.merge extension = .ok catalogue →
      Built catalogue (first ++ second.map (·.shift (Parameter.lastLead first)))

/-- Every catalogue that can be built is that of a schema, which declares the same parameters. -/
theorem Built.exists_schema (h : Built catalogue declared) :
    ∃ schema : Schema, schema.catalogue = catalogue ∧ schema.params = declared := by
  induction h with
  | listed h =>
    rw [ofList_eq_map, map_eq_ok_iff] at h
    obtain ⟨schema, hschema, rfl⟩ := h
    exact ⟨schema, rfl, Schema.params_ofList hschema⟩
  | empty => exact ⟨.empty, rfl, rfl⟩
  | merged _ _ h ihbase ihextension =>
    obtain ⟨base, rfl, rfl⟩ := ihbase
    obtain ⟨extension, rfl, rfl⟩ := ihextension
    rw [merge_catalogue, map_eq_ok_iff] at h
    obtain ⟨merged, hmerged, rfl⟩ := h
    exact ⟨merged, rfl, Schema.params_merge hmerged⟩

/-! ### Which parameters make a catalogue -/

theorem exists_ofList_iff :
    (∃ catalogue, ofList params = .ok catalogue) ↔
      (∀ p ∈ params, p.fault? = none) ∧ (params.map Parameter.name).Nodup := by
  have hbuilt : (∃ catalogue, ofList params = .ok catalogue) ↔
      ∃ schema, Schema.ofList params = .ok schema := by
    simp only [ofList_eq_map, map_eq_ok_iff]
    exact ⟨fun ⟨_, schema, h, _⟩ => ⟨schema, h⟩, fun ⟨schema, h⟩ => ⟨_, schema, h, rfl⟩⟩
  rw [hbuilt, Schema.exists_ofList_iff, Schema.firstFault?_eq_none_iff]
  simp

theorem ofList_eq_error_iff {e : CompileError} :
    ofList params = .error e ↔ ∃ fault front p back, e = .invalidSchema fault ∧
      params = front ++ p :: back ∧ (∀ q ∈ front, q.fault? = none) ∧
      (front.map Parameter.name).Nodup ∧
      Schema.Misplaced (front.map Parameter.name) p fault := by
  rw [ofList_eq_map, map_eq_error_iff, Schema.ofList_eq_error_iff]
  simp only [Schema.firstFault?_eq_some_iff, Schema.firstFault?_eq_none_iff, List.append_nil,
    List.not_mem_nil, not_false_eq_true, implies_true, and_true]
  constructor
  · rintro ⟨fault, ⟨front, p, back, hsplit, ⟨hsound, hdistinct⟩, hp⟩, rfl⟩
    exact ⟨fault, front, p, back, rfl, hsplit, hsound, hdistinct, hp⟩
  · rintro ⟨fault, front, p, back, rfl, hsplit, hsound, hdistinct, hp⟩
    exact ⟨fault, ⟨front, p, back, hsplit, ⟨hsound, hdistinct⟩, hp⟩, rfl⟩

/-! ### The main statement -/

/-- **A catalogue finds each declared parameter under its name, and nothing else.** Parameters make a
catalogue exactly if each is sound and no two have one name. Otherwise the first that is at fault, or
else repeats the name of one before, is named, its own fault in front of its name's. Whether it was
read from parameters, is empty or was merged, a catalogue has its parameters in the order in which
they are declared, and its index tells only places at which they stand. Schemas are built, merged and
searched alike. -/
theorem finds_declared (params : List Parameter) :
    ((∃ catalogue, ofList params = .ok catalogue) ↔
        (∀ p ∈ params, p.fault? = none) ∧ (params.map Parameter.name).Nodup) ∧
      (∀ error, ofList params = .error error ↔ ∃ fault front p back,
        error = .invalidSchema fault ∧ params = front ++ p :: back ∧
          (∀ q ∈ front, q.fault? = none) ∧ (front.map Parameter.name).Nodup ∧
          Schema.Misplaced (front.map Parameter.name) p fault) ∧
      (∀ catalogue declared, Built catalogue declared →
        catalogue.params = declared ∧ ∀ name,
          (catalogue.contains name = true ↔ ∃ p ∈ catalogue.params, p.name = name) ∧
          (∀ p, catalogue.get? name = some (some p) ↔ p ∈ catalogue.params ∧ p.name = name) ∧
          catalogue.get? name ≠ some none) ∧
      ofList params = (Schema.ofList params).map Schema.catalogue ∧
      ∀ base extension : Schema,
        base.catalogue.merge extension.catalogue =
            (base.merge extension).map Schema.catalogue ∧
          ∀ name, base.catalogue.contains name = base.contains name ∧
            base.catalogue.get? name = (base.get? name).map some := by
  refine ⟨exists_ofList_iff, fun _ => ofList_eq_error_iff, fun catalogue declared h => ?_,
    ofList_eq_map params, fun base extension => ⟨merge_catalogue base extension, fun name => ?_⟩⟩
  · obtain ⟨schema, rfl, rfl⟩ := h.exists_schema
    refine ⟨rfl, fun name => ?_⟩
    rw [Schema.contains_catalogue, Schema.get?_catalogue]
    refine ⟨Schema.contains_iff, fun p => ?_, by simp⟩
    exact (by simp : _ ↔ schema.get? name = some p).trans Schema.get?_eq_some_iff
  · rw [Schema.contains_catalogue, Schema.get?_catalogue]
    exact ⟨rfl, rfl⟩

/-- A merged catalogue, and parameters of which the second has a fault of its own besides its name. -/
theorem finds_declared_merged :
    let image : Parameter := { name := "image", kind := .boolean, position := some 2 }
    let atlas : Parameter :=
      { name := "atlas", kind := .boolean, position := some 1, requires := ["image"] }
    let again : Parameter := { name := "image", kind := .boolean, mustExist := true }
    (∃ base extension merged, ofList [image] = .ok base ∧ ofList [atlas] = .ok extension ∧
        base.merge extension = .ok merged ∧ Built merged [image, atlas.shift 2] ∧
        merged.params = [image, atlas.shift 2] ∧ merged.contains "atlas" = true ∧
        merged.get? "atlas" = some (some (atlas.shift 2)) ∧ merged.get? "mask" ≠ some none) ∧
      ofList [image, again] =
        .error (.invalidSchema (.parameter "image" .existenceForbidden)) := by
  intro image atlas again
  obtain ⟨merged, h⟩ :
      ∃ merged, (do (← ofList [image]).merge (← ofList [atlas])) = .ok merged :=
    exists_eq_ok_of_isOk (by decide +kernel)
  obtain ⟨base, hbase, h⟩ := bind_eq_ok_iff.mp h
  obtain ⟨extension, hextension, hmerged⟩ := bind_eq_ok_iff.mp h
  have hbuilt : Built merged [image, atlas.shift 2] :=
    .merged (.listed hbase) (.listed hextension) hmerged
  obtain ⟨_, herror, hfound, _⟩ := finds_declared [image, again]
  obtain ⟨hparams, hlookup⟩ := hfound merged _ hbuilt
  have hatlas : atlas.shift 2 ∈ merged.params ∧ (atlas.shift 2).name = "atlas" := by
    rw [hparams]
    exact ⟨by simp, rfl⟩
  obtain ⟨hcontains, hget, _⟩ := hlookup "atlas"
  refine ⟨⟨base, extension, merged, hbase, hextension, hmerged, hbuilt, hparams,
    hcontains.mpr ⟨_, hatlas⟩, (hget _).mpr hatlas, (hlookup "mask").2.2⟩, ?_⟩
  exact (herror _).mpr ⟨_, [image], again, [], rfl, rfl, by decide, by decide,
    .faulty (by decide)⟩

end Catalogue

namespace Schema

/-- **Merging is associative, and the empty schema is neutral.** Where three schemas can be merged from
either side, both give the same schema: the same parameters in the same order and at the same
positions; and where their catalogues can be, both give the same index too. The leading positions of two
schemas add up when they are merged, and every parameter keeps its group. A schema that resolves its
own references is left as it is by an empty one on either side, and so is its catalogue. -/
theorem merge_monoid (a b c : Schema) :
    (∀ left right, (do (← a.merge b).merge c) = .ok left →
        (do a.merge (← b.merge c)) = .ok right → left = right) ∧
      (∀ left right, (do (← a.catalogue.merge b.catalogue).merge c.catalogue) = .ok left →
        (do a.catalogue.merge (← b.catalogue.merge c.catalogue)) = .ok right →
          left.params = right.params ∧ left.index = right.index) ∧
      (∀ merged, a.merge b = .ok merged →
        merged.maxLeading = a.maxLeading + b.maxLeading ∧
          ∀ p ∈ a.params ++ b.params,
            (merged.get? p.name).map Parameter.group = some p.group) ∧
      (a.checkReferences = .ok () →
        (empty.merge a = .ok a ∧ a.merge empty = .ok a) ∧
          Catalogue.empty.merge a.catalogue = .ok a.catalogue ∧
            a.catalogue.merge Catalogue.empty = .ok a.catalogue) := by
  have hassoc : ∀ left right, (do (← a.merge b).merge c) = .ok left →
      (do a.merge (← b.merge c)) = .ok right → left = right := by
    intro left right hleft hright
    obtain ⟨ab, hab, hleft⟩ := bind_eq_ok_iff.mp hleft
    obtain ⟨bc, hbc, hright⟩ := bind_eq_ok_iff.mp hright
    exact eq_of_merge_merge hab hleft hbc hright
  refine ⟨hassoc, fun left right hleft hright => ?_,
    fun merged h => ⟨maxLeading_merge h, fun p hp => group_of_merge h hp⟩, fun h => ?_⟩
  · rw [Catalogue.merge_merge_catalogue, map_eq_ok_iff] at hleft
    rw [Catalogue.merge_catalogue_merge, map_eq_ok_iff] at hright
    obtain ⟨first, hfirst, rfl⟩ := hleft
    obtain ⟨second, hsecond, rfl⟩ := hright
    obtain rfl := hassoc first second hfirst hsecond
    exact ⟨rfl, rfl⟩
  · have hfront : empty.merge a = .ok a := empty_merge_iff.mpr h
    have hback : a.merge empty = .ok a := merge_empty_iff.mpr h
    have hempty : Catalogue.empty = (empty : Schema).catalogue := rfl
    refine ⟨⟨hfront, hback⟩, ?_, ?_⟩
    · rw [hempty, Catalogue.merge_catalogue, hfront]
      rfl
    · rw [hempty, Catalogue.merge_catalogue, hback]
      rfl

/-- The second schema has no leading parameter, the third one leads from zero and needs the second. -/
theorem merge_monoid_trailing :
    let image : Parameter := { name := "image", kind := .boolean, position := some 2 }
    let debug : Parameter := { name := "debug", kind := .boolean, requires := ["image"] }
    let log : Parameter := { name := "log", kind := .boolean, position := some (-1) }
    let atlas : Parameter :=
      { name := "atlas", kind := .boolean, position := some 0, requires := ["log"] }
    let mask : Parameter := { name := "mask", kind := .boolean, position := some 3 }
    let a : Schema := ⟨[image, debug], by decide, by decide⟩
    let b : Schema := ⟨[log], by decide, by decide⟩
    let c : Schema := ⟨[atlas, mask], by decide, by decide⟩
    (∃ left right, (do (← a.merge b).merge c) = .ok left ∧
        (do a.merge (← b.merge c)) = .ok right ∧ left = right) ∧
      (∃ left right, (do (← a.catalogue.merge b.catalogue).merge c.catalogue) = .ok left ∧
        (do a.catalogue.merge (← b.catalogue.merge c.catalogue)) = .ok right ∧
          left.index = right.index) ∧
      (∃ merged, b.merge c = .ok merged ∧ merged.maxLeading = b.maxLeading + c.maxLeading ∧
        (merged.get? log.name).map Parameter.group = some log.group) ∧
      a.checkReferences = .ok () ∧ empty.merge a = .ok a ∧ a.merge empty = .ok a := by
  intro image debug log atlas mask a b c
  obtain ⟨left, hleft⟩ : ∃ left, (do (← a.merge b).merge c) = .ok left :=
    exists_eq_ok_of_isOk (by decide +kernel)
  obtain ⟨right, hright⟩ : ∃ right, (do a.merge (← b.merge c)) = .ok right :=
    exists_eq_ok_of_isOk (by decide +kernel)
  obtain ⟨merged, hmerged⟩ : ∃ merged, b.merge c = .ok merged :=
    exists_eq_ok_of_isOk (by decide +kernel)
  have hchecked : a.checkReferences = .ok () := by decide +kernel
  obtain ⟨hassoc, hindex, _, hneutral⟩ := merge_monoid a b c
  obtain ⟨hsum, hgroup⟩ := (merge_monoid b c a).2.2.1 merged hmerged
  have hleft' : (do (← a.catalogue.merge b.catalogue).merge c.catalogue) = .ok left.catalogue := by
    rw [Catalogue.merge_merge_catalogue, hleft]
    rfl
  have hright' : (do a.catalogue.merge (← b.catalogue.merge c.catalogue)) = .ok right.catalogue := by
    rw [Catalogue.merge_catalogue_merge, hright]
    rfl
  exact ⟨⟨left, right, hleft, hright, hassoc left right hleft hright⟩,
    ⟨_, _, hleft', hright', (hindex _ _ hleft' hright').2⟩,
    ⟨merged, hmerged, hsum, hgroup log (by simp [b])⟩, hchecked, (hneutral hchecked).1⟩

end Schema

end ContainerCommand
