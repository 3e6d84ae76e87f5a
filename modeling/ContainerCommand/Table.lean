/-! Tables: what is known by name, each name once.

The entries stand in ascending order of their names, so a table has one form: two
tables that answer every look-up alike are equal (`ext_get?`). Inputs and resolved
parameters are tables. -/
namespace ContainerCommand

/-- Entries in ascending order of their names. -/
structure Table (α : Type) where
  entries : List (String × α)
  sorted : entries.Pairwise fun a b => a.1 < b.1
deriving DecidableEq

namespace Table

variable {α β : Type}

def empty : Table α := ⟨[], .nil⟩

instance : EmptyCollection (Table α) := ⟨empty⟩

/-- The entry of a name. -/
def get? (t : Table α) (name : String) : Option α :=
  t.entries.lookup name

def contains (t : Table α) (name : String) : Bool :=
  (t.get? name).isSome

/-- The names in ascending order. -/
def names (t : Table α) : List String :=
  t.entries.map Prod.fst

/-! ### Insertion -/

/-- Puts an entry in its place, where it replaces one of the same name. -/
def insertEntry (name : String) (a : α) : List (String × α) → List (String × α)
  | [] => [(name, a)]
  | (other, b) :: rest =>
    if name < other then (name, a) :: (other, b) :: rest
    else if name = other then (name, a) :: rest
    else (other, b) :: insertEntry name a rest

theorem lt_of_ne_of_not_lt {s t : String} (hne : s ≠ t) (hlt : ¬ s < t) : t < s := by
  rcases String.le_total s t with h | h
  · exact absurd (String.le_antisymm h (String.not_lt.mp hlt)) hne
  · rcases Decidable.em (t < s) with h' | h'
    · exact h'
    · exact absurd (String.le_antisymm (String.not_lt.mp h') h) hne

theorem fst_mem_insertEntry {name : String} {a : α} {es : List (String × α)} {e : String × α}
    (h : e ∈ insertEntry name a es) : e.1 = name ∨ e ∈ es := by
  induction es with
  | nil => simp_all [insertEntry]
  | cons head rest ih =>
    obtain ⟨other, b⟩ := head
    simp only [insertEntry] at h
    split at h
    · simp only [List.mem_cons] at h ⊢
      rcases h with h | h | h <;> simp [h]
    · split at h
      · simp only [List.mem_cons] at h ⊢
        rcases h with h | h <;> simp [h]
      · simp only [List.mem_cons] at h ⊢
        rcases h with h | h
        · simp [h]
        · rcases ih h with h | h <;> simp [h]

theorem sorted_insertEntry (name : String) (a : α) {es : List (String × α)}
    (h : es.Pairwise fun a b => a.1 < b.1) :
    (insertEntry name a es).Pairwise fun a b => a.1 < b.1 := by
  induction es with
  | nil => simp [insertEntry]
  | cons head rest ih =>
    obtain ⟨other, b⟩ := head
    rw [List.pairwise_cons] at h
    simp only [insertEntry]
    split
    · rename_i hlt
      refine List.pairwise_cons.mpr ⟨fun e he => ?_, List.pairwise_cons.mpr h⟩
      rcases List.mem_cons.mp he with he | he
      · exact he ▸ hlt
      · exact String.lt_trans hlt (h.1 e he)
    · split
      · rename_i heq
        exact List.pairwise_cons.mpr ⟨fun e he => heq ▸ h.1 e he, h.2⟩
      · rename_i hlt hne
        refine List.pairwise_cons.mpr ⟨fun e he => ?_, ih h.2⟩
        rcases fst_mem_insertEntry he with he | he
        · exact he ▸ lt_of_ne_of_not_lt hne hlt
        · exact h.1 e he

/-- The table with an entry, which replaces one of the same name. -/
def insert (t : Table α) (name : String) (a : α) : Table α :=
  ⟨insertEntry name a t.entries, sorted_insertEntry name a t.sorted⟩

/-- The table without the entry of a name. -/
def erase (t : Table α) (name : String) : Table α :=
  ⟨t.entries.filter (·.1 != name), t.sorted.filter _⟩

/-- The table of entries, of which a later one replaces an earlier one of the same name. -/
def ofList (es : List (String × α)) : Table α :=
  es.foldl (fun t e => t.insert e.1 e.2) ∅

/-- The table with each entry changed. -/
def map (f : String → α → β) (t : Table α) : Table β :=
  ⟨t.entries.map fun e => (e.1, f e.1 e.2), List.pairwise_map.mpr t.sorted⟩

/-! ### Look-up -/

@[simp] theorem get?_empty (name : String) : (∅ : Table α).get? name = none := rfl

theorem lookup_cons_eq_ite {κ : Type} [BEq κ] [LawfulBEq κ] [DecidableEq κ] (name : κ) (e : κ × α)
    (es : List (κ × α)) :
    (e :: es).lookup name = if name = e.1 then some e.2 else es.lookup name := by
  by_cases h : name = e.1
  · rw [List.lookup_cons, beq_iff_eq.mpr h, if_pos h]
  · rw [List.lookup_cons, beq_eq_false_iff_ne.mpr h, if_neg h]

theorem lookup_insertEntry (name other : String) (a : α) (es : List (String × α)) :
    (insertEntry name a es).lookup other = if other = name then some a else es.lookup other := by
  induction es with
  | nil => simp [insertEntry, lookup_cons_eq_ite]
  | cons head rest ih =>
    simp only [insertEntry]
    split
    · simp [lookup_cons_eq_ite]
    · split
      · rename_i heq
        by_cases h : other = name <;> simp [lookup_cons_eq_ite, h, ← heq]
      · rename_i hne
        by_cases h : other = head.1
        · simp [lookup_cons_eq_ite, h, Ne.symm hne]
        · simp [lookup_cons_eq_ite, ih, h]

/-- An insertion shows at its own name and nowhere else. -/
theorem get?_insert (t : Table α) (name other : String) (a : α) :
    (t.insert name a).get? other = if other = name then some a else t.get? other :=
  lookup_insertEntry name other a t.entries

theorem contains_insert (t : Table α) (name other : String) (a : α) :
    (t.insert name a).contains other = true ↔ other = name ∨ t.contains other = true := by
  rw [contains, get?_insert, contains]
  by_cases h : other = name <;> simp [h]

theorem lookup_filter_ne {κ : Type} [BEq κ] [LawfulBEq κ] [DecidableEq κ] (es : List (κ × α))
    (name other : κ) :
    (es.filter (·.1 != name)).lookup other = if other = name then none else es.lookup other := by
  induction es with
  | nil => simp
  | cons head rest ih =>
    rw [List.filter_cons]
    by_cases h : head.1 = name
    · subst h
      simp only [bne_self_eq_false, Bool.false_eq_true, if_false, ih, lookup_cons_eq_ite]
      split <;> rfl
    · by_cases h' : other = head.1
      · subst h'
        simp [h, lookup_cons_eq_ite]
      · simp [h, h', ih, lookup_cons_eq_ite]

theorem get?_erase (t : Table α) (name other : String) :
    (t.erase name).get? other = if other = name then none else t.get? other :=
  lookup_filter_ne t.entries name other

theorem lookup_map (f : String → α → β) (es : List (String × α)) (name : String) :
    (es.map fun e => (e.1, f e.1 e.2)).lookup name = (es.lookup name).map (f name) := by
  induction es with
  | nil => rfl
  | cons head rest ih =>
    by_cases h : name = head.1 <;> simp [lookup_cons_eq_ite, h, ih]

theorem get?_map (f : String → α → β) (t : Table α) (name : String) :
    (t.map f).get? name = (t.get? name).map (f name) :=
  lookup_map f t.entries name

theorem get?_foldl_insert_of_not_mem {es : List (String × α)} {name : String}
    (h : name ∉ es.map Prod.fst) (t : Table α) :
    (es.foldl (fun t e => t.insert e.1 e.2) t).get? name = t.get? name := by
  induction es generalizing t with
  | nil => rfl
  | cons head rest ih =>
    rw [List.map_cons, List.mem_cons, not_or] at h
    rw [List.foldl_cons, ih h.2, get?_insert, if_neg h.1]

/-- Of entries that repeat no name, each is found. -/
theorem get?_ofList_of_mem {es : List (String × α)} {name : String} {a : α}
    (hdistinct : (es.map Prod.fst).Nodup) (hmem : (name, a) ∈ es) :
    (ofList es).get? name = some a := by
  obtain ⟨front, back, rfl⟩ := List.append_of_mem hmem
  rw [List.map_append, List.map_cons, List.nodup_append, List.nodup_cons] at hdistinct
  rw [ofList, List.foldl_append, List.foldl_cons,
    get?_foldl_insert_of_not_mem hdistinct.2.1.1, get?_insert, if_pos rfl]

/-- A name is found exactly if it is among the names. -/
theorem contains_iff_mem_names (t : Table α) (name : String) :
    t.contains name ↔ name ∈ t.names := by
  simp only [contains, get?, names, List.lookup_isSome_iff, List.mem_map]
  grind

theorem lookup_eq_none_of_lt {name : String} {es : List (String × α)}
    (h : ∀ e ∈ es, name < e.1) : es.lookup name = none := by
  rw [List.lookup_eq_none_iff]
  intro e he
  have hlt := h e he
  have hne : name ≠ e.1 := fun heq => String.lt_irrefl e.1 (heq ▸ hlt)
  simpa using hne

theorem eq_of_lookup_eq {es fs : List (String × α)}
    (hes : es.Pairwise fun a b => a.1 < b.1) (hfs : fs.Pairwise fun a b => a.1 < b.1)
    (h : ∀ name, es.lookup name = fs.lookup name) : es = fs := by
  induction es generalizing fs with
  | nil =>
    cases fs with
    | nil => rfl
    | cons f _ => simpa [lookup_cons_eq_ite] using h f.1
  | cons e es ih =>
    cases fs with
    | nil => simpa [lookup_cons_eq_ite] using h e.1
    | cons f fs =>
      rw [List.pairwise_cons] at hes hfs
      have hname : e.1 = f.1 := by
        rcases Decidable.em (e.1 = f.1) with heq | hne
        · exact heq
        · exfalso
          rcases Decidable.em (e.1 < f.1) with hlt | hlt
          · have hnone : (f :: fs).lookup e.1 = none :=
              lookup_eq_none_of_lt fun g hg => by
                rcases List.mem_cons.mp hg with hg | hg
                · exact hg ▸ hlt
                · exact String.lt_trans hlt (hfs.1 g hg)
            have := h e.1
            rw [hnone] at this
            simp [lookup_cons_eq_ite] at this
          · have hlt := lt_of_ne_of_not_lt hne hlt
            have hnone : (e :: es).lookup f.1 = none :=
              lookup_eq_none_of_lt fun g hg => by
                rcases List.mem_cons.mp hg with hg | hg
                · exact hg ▸ hlt
                · exact String.lt_trans hlt (hes.1 g hg)
            have := h f.1
            rw [hnone] at this
            simp [lookup_cons_eq_ite] at this
      have hvalue : e.2 = f.2 := by
        have := h e.1
        simpa [lookup_cons_eq_ite, hname] using this
      have htail : es = fs := ih hes.2 hfs.2 fun name => by
        by_cases hn : name = e.1
        · subst hn
          rw [lookup_eq_none_of_lt hes.1, lookup_eq_none_of_lt (hname ▸ hfs.1)]
        · have := h name
          simpa [lookup_cons_eq_ite, ← hname, hn] using this
      rw [htail, Prod.ext hname hvalue]

/-- Tables that answer every look-up alike are equal. -/
theorem ext_get? {t u : Table α} (h : ∀ name, t.get? name = u.get? name) : t = u := by
  obtain ⟨es, hes⟩ := t
  obtain ⟨fs, hfs⟩ := u
  have : es = fs := eq_of_lookup_eq hes hfs h
  subst this
  rfl

end Table

end ContainerCommand
