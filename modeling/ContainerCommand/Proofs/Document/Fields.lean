import ContainerCommand.Document
import ContainerCommand.Proofs.Success
import Mathlib.Data.List.Nodup

/-! What is found in documents.

A tree that repeats no name in a table (`Document.IsTree`) has each of its entries found by name
(`find?_eq_some_iff`), so a record taken out of it is looked up among all of them
(`record?_table`). A field gives a value exactly when its entry does, if there is one
(`exists_optional?_iff`, `exists_defaulted?_iff`). -/
namespace ContainerCommand

namespace Document

variable {doc : Document} {entries : List (String × Document)} {name : String}

/-- The trees that texts without dates and times hold: integers are signed words, and no table
repeats a name. -/
inductive IsTree : Document → Prop
  | bool (b : Bool) : IsTree (.bool b)
  | int {n : Int} : Number.fitsWord n = true → IsTree (.int n)
  | float (x : Number.Binary64) : IsTree (.float x)
  | text (s : String) : IsTree (.text s)
  | list {items : List Document} : (∀ item ∈ items, IsTree item) → IsTree (.list items)
  | table {entries : List (String × Document)} : (entries.map Prod.fst).Nodup →
      (∀ entry ∈ entries, IsTree entry.2) → IsTree (.table entries)

@[simp] theorem isTree_int_iff {n : Int} : (int n).IsTree ↔ Number.fitsWord n = true :=
  ⟨fun | .int h => h, .int⟩

@[simp] theorem isTree_list_iff {items : List Document} :
    (list items).IsTree ↔ ∀ item ∈ items, item.IsTree :=
  ⟨fun | .list h => h, .list⟩

@[simp] theorem isTree_table_iff :
    (table entries).IsTree ↔
      (entries.map Prod.fst).Nodup ∧ ∀ entry ∈ entries, entry.2.IsTree :=
  ⟨fun | .table hdistinct htrees => ⟨hdistinct, htrees⟩, fun h => .table h.1 h.2⟩

attribute [simp] IsTree.bool IsTree.float IsTree.text

/-! ### Single values -/

theorem text?_eq_some_iff {s : String} : doc.text? = some s ↔ doc = .text s := by
  cases doc <;> simp [text?]

theorem bool?_eq_some_iff {b : Bool} : doc.bool? = some b ↔ doc = .bool b := by
  cases doc <;> simp [bool?]

theorem int?_eq_some_iff {n : Int} : doc.int? = some n ↔ doc = .int n := by
  cases doc <;> simp [int?]

theorem items?_eq_some_iff {items : List Document} : doc.items? = some items ↔ doc = .list items := by
  cases doc <;> simp [items?]

theorem texts?_eq_some_iff {texts : List String} :
    doc.texts? = some texts ↔ doc = .list (texts.map .text) := by
  cases doc with
  | list items =>
    simp only [texts?, mapM_eq_some_iff, text?_eq_some_iff, list.injEq]
    rw [← List.forall₂_map_right_iff, List.forall₂_eq_eq_eq]
  | _ => simp [texts?]

/-! ### Entries by name -/

theorem mem_of_find?_eq_some (h : find? entries name = some doc) : (name, doc) ∈ entries := by
  obtain ⟨entry, hentry, rfl⟩ := Option.map_eq_some_iff.mp h
  have hname : entry.1 = name := by simpa using List.find?_some hentry
  exact hname ▸ List.mem_of_find?_eq_some hentry

theorem isSome_find? : (find? entries name).isSome = entries.any (·.1 == name) := by
  rw [find?, Option.isSome_map, List.isSome_find?]

theorem isSome_find?_iff : (find? entries name).isSome ↔ name ∈ entries.map Prod.fst := by
  simp [isSome_find?]

/-- Where no name is repeated, every entry is found. -/
theorem find?_eq_some_iff (hdistinct : (entries.map Prod.fst).Nodup) :
    find? entries name = some doc ↔ (name, doc) ∈ entries := by
  refine ⟨mem_of_find?_eq_some, fun hmem => ?_⟩
  obtain ⟨found, hfound⟩ := Option.isSome_iff_exists.mp
    (isSome_find?_iff.mpr (List.mem_map_of_mem (f := Prod.fst) hmem))
  have hsame := List.inj_on_of_nodup_map hdistinct (mem_of_find?_eq_some hfound) hmem rfl
  rw [hfound, (Prod.mk.inj hsame).2]

theorem isRepeated_eq_false (hdistinct : (entries.map Prod.fst).Nodup) (name : String) :
    isRepeated entries name = false := by
  have hcount := List.nodup_iff_count_le_one.mp hdistinct name
  rw [List.count, List.countP_map] at hcount
  exact decide_eq_false (Nat.not_lt.mpr hcount)

/-! ### Records -/

section Record

variable {format : Format} {names : List String} {field : String → Option Document}

/-- A record is taken out of a table that repeats none of its names. -/
theorem record?_table_eq_some_iff :
    record? format names (.table entries) = some field ↔
      (∀ name ∈ names, isRepeated entries name = false) ∧ field = find? entries := by
  have hrecord : record? format names (.table entries) =
      if names.any (isRepeated entries) then none else some (find? entries) := rfl
  rw [hrecord]
  split
  · rename_i hrepeated
    obtain ⟨name, hname, hname'⟩ := List.any_eq_true.mp hrepeated
    exact iff_of_false nofun fun h => absurd hname' (by simp [h.1 name hname])
  · rename_i hnone
    have hall : ∀ name ∈ names, isRepeated entries name = false := by simpa using hnone
    rw [Option.some.injEq, eq_comm]
    exact ⟨fun h => ⟨hall, h⟩, And.right⟩

/-- A table that repeats no name gives its entries to a record. -/
theorem record?_table (hdistinct : (entries.map Prod.fst).Nodup) :
    record? format names (.table entries) = some (find? entries) :=
  record?_table_eq_some_iff.mpr ⟨fun name _ => isRepeated_eq_false hdistinct name, rfl⟩

/-- What a record takes out of a table it finds among the entries. -/
theorem eq_find?_of_record? (h : record? format names (.table entries) = some field) :
    field = find? entries :=
  (record?_table_eq_some_iff.mp h).2

end Record

variable {α : Type} {read : Document → Option α} {field : Option Document}

theorem optional?_some (hnull : doc ≠ .null) :
    optional? read (some doc) = (read doc).map some := by
  cases doc <;> first | rfl | exact absurd rfl hnull

/-- A field that may be left out gives a value if its entry does. -/
theorem exists_optional?_iff (hnull : field ≠ some .null) :
    (∃ a, optional? read field = some a) ↔ ∀ doc, field = some doc → ∃ a, read doc = some a := by
  cases field with
  | none => simp [optional?]
  | some doc => simp [optional?_some fun heq => hnull (congrArg some heq)]

/-- A field that has a default gives a value if its entry does. -/
theorem exists_defaulted?_iff {fallback : α} :
    (∃ a, defaulted? read fallback field = some a) ↔
      ∀ doc, field = some doc → ∃ a, read doc = some a := by
  cases field with
  | none => simp [defaulted?]
  | some doc => simp [defaulted?]

/-- What a field that has a default gives is read from its entry. -/
theorem read_of_defaulted? {fallback a : α} (h : defaulted? read fallback field = some a)
    (hfield : field = some doc) : read doc = some a := by
  rwa [hfield] at h

/-- What an optional field holds has been read from it. -/
theorem exists_of_optional?_eq_some {a : α} (h : optional? read field = some (some a)) :
    ∃ doc, field = some doc ∧ read doc = some a := by
  unfold optional? at h
  split at h
  · cases h
  · cases h
  · rename_i doc _
    obtain ⟨b, hread, hb⟩ := Option.map_eq_some_iff.mp h
    cases hb
    exact ⟨doc, rfl, hread⟩

/-- What a field that may be left out gives is read from its entry. -/
theorem exists_of_optional? {a : Option α} (h : optional? read field = some a)
    (hfield : field = some doc) (hnull : doc ≠ .null) : ∃ b, read doc = some b ∧ a = some b := by
  rw [hfield, optional?_some hnull, Option.map_eq_some_iff] at h
  obtain ⟨b, hb, rfl⟩ := h
  exact ⟨b, hb, rfl⟩

/-- A field that may be left out is there in what is read exactly if it is in the document. -/
theorem isSome_of_optional? {a : Option α} (hnull : field ≠ some .null)
    (h : optional? read field = some a) : a.isSome = field.isSome := by
  cases field with
  | none =>
    cases h
    rfl
  | some doc =>
    rw [optional?_some fun heq => hnull (congrArg some heq)] at h
    obtain ⟨_, _, rfl⟩ := Option.map_eq_some_iff.mp h
    rfl

/-- The value of a field that has a default: that default if the field is missing, else one that is in
the given relation to its entry. -/
inductive Fills (R : Document → α → Prop) (standard : α) : Option Document → α → Prop
  | missing : Fills R standard none standard
  | present {doc : Document} {a : α} : R doc a → Fills R standard (some doc) a

theorem defaulted?_eq_some_iff {R : Document → α → Prop} {standard a : α}
    (hread : ∀ {doc}, read doc = some a ↔ R doc a) :
    defaulted? read standard field = some a ↔ Fills R standard field a := by
  cases field with
  | none =>
    refine Option.some_inj.trans ⟨?_, ?_⟩
    · rintro rfl
      exact .missing
    · rintro ⟨⟩
      rfl
  | some doc => exact hread.trans ⟨.present, fun | .present h => h⟩

theorem defaulted?_text?_eq_some_iff {standard s : String} :
    defaulted? text? standard field = some s ↔ Fills (fun doc s => doc = .text s) standard field s :=
  defaulted?_eq_some_iff text?_eq_some_iff

end Document

end ContainerCommand
