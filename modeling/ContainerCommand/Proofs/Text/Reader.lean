import ContainerCommand.Text.Reader
import Mathlib.Data.List.Forall2

/-! What readers take off the front of a text.

`Reads` says of a reader that it takes a value off a text and which rest it leaves. Lists are
read item by item, whether each comma stands between two items (`items_inline`) or behind each item
(`items_lines`). -/
namespace ContainerCommand.Text

variable {α : Type}

/-- The reader takes the value off the front of a text and leaves the rest. -/
def Reads (reader : Reader α) (cs : List Char) (a : α) (rest : List Char) : Prop :=
  ∃ h, reader cs = some (a, ⟨rest, h⟩)

namespace Reader

/-! ### Runs of characters -/

theorem takeWhile_append_of_all {p : Char → Bool} {cs rest : List Char} (h : ∀ c ∈ cs, p c = true)
    (hrest : ∀ c ∈ rest.head?, p c = false) :
    (cs ++ rest).takeWhile p = cs ∧ (cs ++ rest).dropWhile p = rest := by
  rw [List.takeWhile_append_of_pos h, List.dropWhile_append_of_pos h]
  cases rest with
  | nil => simp
  | cons c rest => simp [hrest c rfl]

theorem run_append {p : Char → Bool} {cs rest : List Char} (hne : cs ≠ [])
    (h : ∀ c ∈ cs, p c = true) (hrest : ∀ c ∈ rest.head?, p c = false) :
    Reads (run p) (cs ++ rest) cs rest := by
  obtain ⟨c, cs, rfl⟩ := List.exists_cons_of_ne_nil hne
  obtain ⟨hc, hcs⟩ := List.forall_mem_cons.mp h
  obtain ⟨htake, hdrop⟩ := takeWhile_append_of_all hcs hrest
  refine ⟨by simp only [List.length_append, List.length_cons]; omega, ?_⟩
  simp only [List.cons_append, run, hc, if_true, htake]
  simp [Rest.behind, Suffix.dropWhile, hdrop]

/-! ### Items -/

variable {skip : (cs : List Char) → Suffix cs} {trailing : Bool} {item : Reader α} {close c : Char}
  {cs rest tail last : List Char} {a : α} {as : List α}

theorem itemsUntil_last (hitem : Reads item (skip cs).1 a rest)
    (hrest : (skip rest).1 = close :: tail) :
    Reads (itemsUntil skip trailing item close) cs [a] tail := by
  obtain ⟨hlength, hitem⟩ := hitem
  have hcs := (skip cs).2
  have hskip := (skip rest).2
  rw [hrest, List.length_cons] at hskip
  refine ⟨by omega, ?_⟩
  rw [itemsUntil, hitem]
  dsimp only [Rest.widen]
  split
  · rename_i h
    cases hrest.symm.trans h
  · rename_i h
    cases hrest.symm.trans h
    simp

theorem itemsUntil_more (hitem : Reads item (skip cs).1 a rest)
    (hrest : (skip rest).1 = ',' :: tail) (hclose : close ≠ ',')
    (htail : ∃ d end_, (skip tail).1 = d :: end_ ∧ d ≠ close)
    (hmore : Reads (itemsUntil skip trailing item close) tail as last) :
    Reads (itemsUntil skip trailing item close) cs (a :: as) last := by
  obtain ⟨hlength, hitem⟩ := hitem
  obtain ⟨hmore, has⟩ := hmore
  obtain ⟨d, end_, htail, hd⟩ := htail
  have hcs := (skip cs).2
  have hskip := (skip rest).2
  rw [hrest, List.length_cons] at hskip
  refine ⟨by omega, ?_⟩
  rw [itemsUntil, hitem]
  dsimp only [Rest.widen]
  split
  · rename_i h
    cases hrest.symm.trans h
  · rename_i h
    cases hrest.symm.trans h
    rw [if_neg (by simpa using hclose.symm), if_pos (by rfl)]
    split
    · rename_i h
      cases htail.symm.trans h
    · rename_i h
      cases htail.symm.trans h
      rw [if_neg (by simp [hd]), has]

theorem itemsUntil_trailing (hitem : Reads item (skip cs).1 a rest)
    (hrest : (skip rest).1 = ',' :: tail) (hclose : close ≠ ',')
    (htail : (skip tail).1 = close :: last) :
    Reads (itemsUntil skip true item close) cs [a] last := by
  obtain ⟨hlength, hitem⟩ := hitem
  have hcs := (skip cs).2
  have hskip := (skip rest).2
  have hend := (skip tail).2
  rw [hrest, List.length_cons] at hskip
  rw [htail, List.length_cons] at hend
  refine ⟨by omega, ?_⟩
  rw [itemsUntil, hitem]
  dsimp only [Rest.widen]
  split
  · rename_i h
    cases hrest.symm.trans h
  · rename_i h
    cases hrest.symm.trans h
    rw [if_neg (by simpa using hclose.symm), if_pos (by rfl)]
    split
    · rename_i h
      cases htail.symm.trans h
    · rename_i h
      cases htail.symm.trans h
      simp

theorem items_nil (h : (skip cs).1 = close :: rest) :
    Reads (items skip trailing item close) cs [] rest := by
  have hskip := (skip cs).2
  rw [h, List.length_cons] at hskip
  refine ⟨hskip, ?_⟩
  rw [items]
  split
  · rename_i hcs
    cases h.symm.trans hcs
  · rename_i hcs
    cases h.symm.trans hcs
    simp

theorem items_of_itemsUntil (hskip : (skip cs).1 = c :: tail) (hclose : c ≠ close)
    (h : Reads (itemsUntil skip trailing item close) cs as rest) :
    Reads (items skip trailing item close) cs as rest := by
  obtain ⟨hlength, has⟩ := h
  refine ⟨hlength, ?_⟩
  rw [items]
  split
  · rename_i hcs
    cases hskip.symm.trans hcs
  · rename_i hcs
    cases hskip.symm.trans hcs
    rw [if_neg (by simpa using hclose), has]

/-! ### Lists as they are written -/

/-- How an item of a list is written: it begins with a character that is neither passed over nor closes
the list, and is read in front of what may follow it. -/
structure IsItem (skip : (cs : List Char) → Suffix cs) (item : Reader α) (close : Char)
    (text : List Char) (a : α) : Prop where
  starts : ∃ c rest, text = c :: rest ∧ c ≠ close ∧ ∀ cs, (skip (c :: cs)).1 = c :: cs
  reads : ∀ c ∈ [',', close], ∀ rest, Reads item (text ++ c :: rest) a (c :: rest)

/-- What is passed over wherever it is followed by something that is not. -/
def IsGap (skip : (cs : List Char) → Suffix cs) (gap : List Char) : Prop :=
  ∀ c cs, (skip (c :: cs)).1 = c :: cs → (skip (gap ++ c :: cs)).1 = c :: cs

theorem isGap_nil : IsGap skip [] :=
  fun _ _ h => h

theorem IsItem.skip_eq {text gap : List Char} (h : IsItem skip item close text a)
    (hgap : IsGap skip gap) (rest : List Char) :
    (skip (gap ++ (text ++ rest))).1 = text ++ rest ∧
      ∃ c tail, text ++ rest = c :: tail ∧ c ≠ close := by
  obtain ⟨c, tail, rfl, hclose, hskip⟩ := h.starts
  exact ⟨hgap c _ (hskip _), c, _, rfl, hclose⟩

variable {gap between text ending : List Char} {texts : List (List Char)}

/-- Items are read one after the other up to the ending of the list, of which `hlast` says that it is
read behind the last one. -/
theorem itemsUntil_of_forall₂ (hcomma : ∀ cs, (skip (',' :: cs)).1 = ',' :: cs)
    (hclose : close ≠ ',') (hbetween : IsGap skip between)
    (hending : ∃ c ∈ [',', close], ∃ tail, ending = c :: tail)
    (hlast : ∀ {cs : List Char} {a : α}, Reads item (skip cs).1 a ending →
      Reads (itemsUntil skip trailing item close) cs [a] rest)
    (hitem : IsItem skip item close text a)
    (hitems : List.Forall₂ (IsItem skip item close) texts as) (hgap : IsGap skip gap) :
    Reads (itemsUntil skip trailing item close)
      (gap ++ (text ++ (texts.flatMap (fun next => ',' :: (between ++ next)) ++ ending)))
      (a :: as) rest := by
  induction hitems generalizing gap text a with
  | nil =>
    obtain ⟨c, hc, tail, rfl⟩ := hending
    have hread := hitem.reads c hc tail
    rw [← (hitem.skip_eq hgap _).1] at hread
    exact hlast hread
  | @cons next a' others as' hnext _ ih =>
    have hread := hitem.reads ',' (List.mem_cons_self ..) (between ++ (next ++
      (others.flatMap (fun next => ',' :: (between ++ next)) ++ ending)))
    rw [← (hitem.skip_eq hgap _).1] at hread
    obtain ⟨hstart, hhead⟩ := hnext.skip_eq hbetween
      (others.flatMap (fun next => ',' :: (between ++ next)) ++ ending)
    rw [← hstart] at hhead
    rw [List.flatMap_cons, List.append_assoc, List.cons_append, List.append_assoc]
    exact itemsUntil_more hread (hcomma _) hclose hhead (ih hnext hbetween)

theorem intercalate_cons (separator text : List Char) (texts : List (List Char)) :
    separator.intercalate (text :: texts) = text ++ texts.flatMap (separator ++ ·) := by
  induction texts generalizing text with
  | nil => simp
  | cons next texts ih =>
    rw [List.intercalate_cons_cons, ih, List.flatMap_cons, List.append_assoc, List.append_assoc]

/-- A list is read whose items have commas between them. -/
theorem items_inline (hcomma : ∀ cs, (skip (',' :: cs)).1 = ',' :: cs)
    (hend : ∀ cs, (skip (close :: cs)).1 = close :: cs) (hclose : close ≠ ',')
    (h : List.Forall₂ (IsItem skip item close) texts as) (rest : List Char) :
    Reads (items skip trailing item close) ([','].intercalate texts ++ close :: rest) as rest := by
  cases h with
  | nil => exact items_nil (hend rest)
  | @cons text a texts as hitem hitems =>
    obtain ⟨hstart, c, tail, hhead, hne⟩ := hitem.skip_eq isGap_nil
      (texts.flatMap ([','] ++ ·) ++ close :: rest)
    rw [intercalate_cons, List.append_assoc]
    refine items_of_itemsUntil (hstart.trans hhead) hne ?_
    exact itemsUntil_of_forall₂ hcomma hclose isGap_nil ⟨close, by simp, rest, rfl⟩
      (fun h => itemsUntil_last h (hend rest)) hitem hitems isGap_nil

/-- A list is read whose items have a comma behind each of them. -/
theorem items_lines (hcomma : ∀ cs, (skip (',' :: cs)).1 = ',' :: cs)
    (hend : ∀ cs, (skip (close :: cs)).1 = close :: cs) (hclose : close ≠ ',') {after : List Char}
    (hbetween : IsGap skip between) (hafter : IsGap skip after)
    (hitem : IsItem skip item close text a)
    (hitems : List.Forall₂ (IsItem skip item close) texts as) (rest : List Char) :
    Reads (items skip true item close)
      (between ++ (text ++ (texts.flatMap (fun next => ',' :: (between ++ next)) ++
        ',' :: (after ++ close :: rest)))) (a :: as) rest := by
  obtain ⟨hstart, c, tail, hhead, hne⟩ := hitem.skip_eq hbetween
    (texts.flatMap (fun next => ',' :: (between ++ next)) ++ ',' :: (after ++ close :: rest))
  refine items_of_itemsUntil (hstart.trans hhead) hne ?_
  exact itemsUntil_of_forall₂ hcomma hclose hbetween ⟨',', by simp, _, rfl⟩
    (fun h => itemsUntil_trailing h (hcomma _) hclose (hafter close rest (hend rest)))
    hitem hitems hbetween

end Reader

end ContainerCommand.Text
