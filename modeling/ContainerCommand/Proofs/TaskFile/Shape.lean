import ContainerCommand.Proofs.Document.Fields
import ContainerCommand.TaskFile.Basic
import ContainerCommand.TaskFile.Shape

/-! What documents of a shape hold.

Documents of a shape are read as what the shape is for (`Shape.Reads`), mounts and values among them
(`reads_mount`, `exists_of_valueShape`), and these are read from what they are written as. The entries
of a record have the shapes of their names (`of_record`, `mem_of_record`), so its fields are read if
their shapes are (`exists_optional?_of_record`, `exists_defaulted?_of_record`). -/
namespace ContainerCommand

namespace Shape

variable {doc : Document} {item shape : Shape}

/-- The documents of a shape are read. -/
def Reads {α : Type} (shape : Shape) (read : Document → Option α) : Prop :=
  ∀ doc, shape doc = true → ∃ a, read doc = some a

theorem text_iff : text doc = true ↔ ∃ s, doc = .text s := by
  simp only [text, Option.isSome_iff_exists, Document.text?_eq_some_iff]

theorem reads_text : text.Reads Document.text? :=
  fun _ h => Option.isSome_iff_exists.mp h

theorem reads_bool : bool.Reads Document.bool? :=
  fun _ h => Option.isSome_iff_exists.mp h

theorem reads_nonEmptyText : nonEmptyText.Reads Document.text? := by
  intro doc h
  obtain ⟨s, hs, -⟩ := (Option.any_eq_true _ _).mp h
  exact ⟨s, hs⟩

theorem reads_kind : (oneOf ([Kind.flag, .boolean, .scalar, .path, .pathList].map Kind.label)).Reads
    Kind.ofDocument? := by
  intro doc h
  obtain ⟨label, hlabel, hmem⟩ := (Option.any_eq_true _ _).mp h
  obtain ⟨k, -, rfl⟩ := List.mem_map.mp (List.contains_iff_mem.mp hmem)
  exact ⟨k, by rw [Document.text?_eq_some_iff.mp hlabel]; cases k <;> rfl⟩

theorem listOf_iff :
    listOf item doc = true ↔ ∃ items, doc = .list items ∧ ∀ d ∈ items, item d = true := by
  simp only [listOf, Option.any_eq_true, Document.items?_eq_some_iff, List.all_eq_true]

/-- A list is read if its elements are. -/
theorem Reads.listOf {α : Type} {read : Document → Option α} (h : item.Reads read) :
    (listOf item).Reads fun doc => doc.items?.bind fun items => items.mapM read := by
  intro doc hdoc
  obtain ⟨items, rfl, hitems⟩ := listOf_iff.mp hdoc
  exact exists_mapM_eq_some_iff.mpr fun d hd => h d (hitems d hd)

theorem reads_texts : (listOf text).Reads Document.texts? := by
  intro doc hdoc
  obtain ⟨texts, htexts⟩ := reads_text.listOf doc hdoc
  obtain ⟨items, rfl, -⟩ := listOf_iff.mp hdoc
  exact ⟨texts, htexts⟩

/-! ### Records -/

section Record

variable {required : List String} {fields : List (String × Shape)}
  {entries : List (String × Document)} {name : String}

/-- Every entry of a record has one of its names. -/
theorem mem_of_record (h : record required fields (.table entries) = true)
    (hmem : (name, doc) ∈ entries) : ∃ shape, (name, shape) ∈ fields ∧ shape doc = true := by
  simp only [record, Document.entries?, Option.any_some, Bool.and_eq_true, List.all_eq_true] at h
  obtain ⟨shape, hshape, hdoc⟩ := (Option.any_eq_true _ _).mp (h.2 _ hmem)
  obtain ⟨before, after, rfl, -⟩ := List.lookup_eq_some_iff.mp hshape
  exact ⟨shape, by simp, hdoc⟩

/-- An entry has the shape of its name. -/
theorem of_record (h : record required fields (.table entries) = true)
    (hfield : fields.lookup name = some shape) (hmem : (name, doc) ∈ entries) :
    shape doc = true := by
  simp only [record, Document.entries?, Option.any_some, Bool.and_eq_true, List.all_eq_true] at h
  have hentry := h.2 _ hmem
  rwa [hfield, Option.any_some] at hentry

/-- A name that is asked for is there. -/
theorem exists_find?_of_record (h : record required fields (.table entries) = true)
    (hname : name ∈ required) : ∃ doc, Document.find? entries name = some doc := by
  simp only [record, Document.entries?, Option.any_some, Bool.and_eq_true, List.all_eq_true] at h
  exact Option.isSome_iff_exists.mp (h.1 name hname)

theorem ne_null_of_record (h : record required fields (.table entries) = true)
    (hfields : ∀ field ∈ fields, field.2 .null = false) :
    Document.find? entries name ≠ some .null := by
  intro hnull
  obtain ⟨shape, hmem, hshape⟩ := mem_of_record h (Document.mem_of_find?_eq_some hnull)
  exact Bool.false_ne_true ((hfields _ hmem).symm.trans hshape)

variable {α : Type} {read : Document → Option α}

/-- A field that is asked for is read if its shape is. -/
theorem exists_read_of_record (h : record required fields (.table entries) = true)
    (hname : name ∈ required) (hfield : fields.lookup name = some shape) (hread : shape.Reads read) :
    ∃ a doc, Document.find? entries name = some doc ∧ read doc = some a := by
  obtain ⟨doc, hdoc⟩ := exists_find?_of_record h hname
  obtain ⟨a, ha⟩ := hread doc (of_record h hfield (Document.mem_of_find?_eq_some hdoc))
  exact ⟨a, doc, hdoc, ha⟩

/-- A field that may be left out is read if its shape is. -/
theorem exists_optional?_of_record (h : record required fields (.table entries) = true)
    (hfields : ∀ field ∈ fields, field.2 .null = false) (hfield : fields.lookup name = some shape)
    (hread : shape.Reads read) :
    ∃ a, Document.optional? read (Document.find? entries name) = some a :=
  (Document.exists_optional?_iff (ne_null_of_record h hfields)).mpr fun doc hdoc =>
    hread doc (of_record h hfield (Document.mem_of_find?_eq_some hdoc))

/-- A field that has a default is read if its shape is. -/
theorem exists_defaulted?_of_record (h : record required fields (.table entries) = true)
    (hfield : fields.lookup name = some shape) (hread : shape.Reads read) (fallback : α) :
    ∃ a, Document.defaulted? read fallback (Document.find? entries name) = some a :=
  Document.exists_defaulted?_iff.mpr fun doc hdoc =>
    hread doc (of_record h hfield (Document.mem_of_find?_eq_some hdoc))

end Record

end Shape

/-! ### Mounts and values -/

namespace TaskFile

variable {doc : Document}

theorem reads_mount : mountShape.Reads MountEntry.ofDocument? := by
  intro doc h
  rw [mountShape, Bool.or_eq_true] at h
  rcases h with h | h
  · obtain ⟨s, rfl⟩ := Shape.text_iff.mp h
    exact ⟨.joined s, rfl⟩
  · obtain ⟨items, hitems, hpair⟩ := (Option.any_eq_true _ _).mp h
    simp only [Bool.and_eq_true, beq_iff_eq, List.all_eq_true] at hpair
    obtain ⟨first, second, rfl⟩ := List.length_eq_two.mp hpair.1
    obtain ⟨host, rfl⟩ := Shape.text_iff.mp (hpair.2 first (by simp))
    obtain ⟨container, rfl⟩ := Shape.text_iff.mp (hpair.2 second (by simp))
    exact ⟨.pair host container, by rw [Document.items?_eq_some_iff.mp hitems]; rfl⟩

/-- Mounts are read from the list of what they are written as. -/
theorem mapM_mount_eq_some_iff {docs : List Document} {mounts : List MountEntry} :
    docs.mapM MountEntry.ofDocument? = some mounts ↔ docs = mounts.map MountEntry.toDocument := by
  have hread : ∀ doc (entry : MountEntry),
      MountEntry.ofDocument? doc = some entry ↔ doc = entry.toDocument := by
    intro doc entry
    constructor
    · intro h
      unfold MountEntry.ofDocument? at h
      split at h <;> cases h <;> rfl
    · rintro rfl
      cases entry <;> rfl
  simp only [mapM_eq_some_iff, hread]
  rw [← List.forall₂_map_right_iff, List.forall₂_eq_eq_eq]

/-- A value of a tree is read from the document that it is written as. -/
theorem eq_toDocument_of_value (htree : doc.IsTree) {v : Value}
    (h : Value.ofDocument? doc = some v) : doc = v.toDocument := by
  cases htree with
  | bool b =>
    cases h
    rfl
  | @int n hn =>
    rw [Value.ofDocument?, Value.ofInt?, if_pos hn] at h
    cases h
    rfl
  | float x =>
    cases h
    rfl
  | text s =>
    cases h
    rfl
  | @list items _ =>
    obtain ⟨texts, htexts, rfl⟩ := Option.map_eq_some_iff.mp h
    exact Document.texts?_eq_some_iff.mp htexts
  | table => cases h

theorem exists_of_valueShape (htree : doc.IsTree) (h : valueShape doc = true) :
    ∃ v, Value.ofDocument? doc = some v := by
  cases htree with
  | bool b => exact ⟨.bool b, rfl⟩
  | @int n hn => exact ⟨.int n, by rw [Value.ofDocument?, Value.ofInt?, if_pos hn]⟩
  | float x => exact ⟨.float x, rfl⟩
  | text s => exact ⟨.text s, rfl⟩
  | @list items _ =>
    have hlist : Shape.listOf Shape.text (.list items) = true := h
    obtain ⟨texts, htexts⟩ := Shape.reads_texts _ hlist
    exact ⟨.list texts, by rw [Value.ofDocument?, htexts, Option.map_some]⟩
  | table => cases h

end TaskFile

end ContainerCommand
