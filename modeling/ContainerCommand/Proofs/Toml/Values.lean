import ContainerCommand.Proofs.Number.Integer
import ContainerCommand.Proofs.Toml.Quoting
import ContainerCommand.Toml.Reader
import Mathlib.Data.List.TakeDrop

/-! Values as they are written.

Texts, whole numbers and lists of them are read as what they were written from (`value_valueText`). A
number is no date and no other notation of a number; a list may stand in one line or have a line for
each of its items. -/
namespace ContainerCommand.Toml
open Text Number

/-! ### Numbers -/

variable {digits : List Char}

theorem expect?_eq_none {expected : Char} {cs : List Char} (h : ∀ c ∈ cs.head?, c ≠ expected) :
    expect? expected cs = none := by
  cases cs with
  | nil => rfl
  | cons c cs => rw [expect?, if_neg (h c rfl)]

/-- Digits have no separator behind them. -/
theorem expect?_drop {expected : Char} (hexpected : expected.isDigit = false)
    (hdigits : ∀ c ∈ digits, c.isDigit = true) (n : Nat) :
    expect? expected (digits.drop n) = none := by
  refine expect?_eq_none fun c hc => ?_
  rintro rfl
  have := hdigits c ((List.drop_sublist n digits).subset (List.mem_of_mem_head? hc))
  rw [hexpected] at this
  cases this

theorem date_read?_of_digits (hdigits : ∀ c ∈ digits, c.isDigit = true) :
    Date.read? digits = none := by
  have hdash := expect?_drop (by decide : '-'.isDigit = false) hdigits 4
  simp [Date.read?, digits?, hdash]

theorem moment_read?_of_digits (hdigits : ∀ c ∈ digits, c.isDigit = true) :
    Moment.read? digits = none := by
  have hcolon := expect?_drop (by decide : ':'.isDigit = false) hdigits 2
  have htime : Time.read? digits = none := by
    simp [Time.read?, digits?, hcolon]
  rw [Moment.read?, date_read?_of_digits hdigits, htime]

theorem date_read?_minus (cs : List Char) : Date.read? ('-' :: cs) = none := by
  simp [Date.read?, digits?]

theorem moment_read?_minus (cs : List Char) : Moment.read? ('-' :: cs) = none := by
  have htime : Time.read? ('-' :: cs) = none := by
    simp [Time.read?, digits?]
  rw [Moment.read?, date_read?_minus, htime]

/-- A whole number is not taken for a date or a time. -/
theorem read?_intText (n : Int) : Date.read? (Value.intText n).toList = none ∧
    Moment.read? (Value.intText n).toList = none := by
  have hdigits := (isDigits_toDigits n.natAbs).isDigit
  rw [toList_intText]
  split
  · exact ⟨date_read?_minus _, moment_read?_minus _⟩
  · exact ⟨date_read?_of_digits hdigits, moment_read?_of_digits hdigits⟩

theorem radixValue?_of_isDigit {c : Char} (h : c.isDigit = true) :
    radixValue? 10 c = some (digitValue c) := by
  have hlt : decide (digitValue c < 10) = true := decide_eq_true (digitValue_lt h)
  rw [radixValue?, if_pos h]
  exact Option.filter_some_pos hlt

/-- Digits need no underscores between them. -/
theorem grouped?_of_digits (h : IsDigits digits) :
    grouped? 10 digits = some (digits.map digitValue) := by
  obtain ⟨c, rest, rfl⟩ := List.exists_cons_of_ne_nil h.ne_nil
  have hdigits := h.isDigit
  clear h
  induction rest generalizing c with
  | nil => simp [grouped?, radixValue?_of_isDigit (hdigits c (by simp))]
  | cons d rest ih =>
    obtain ⟨hc, hdigits⟩ := List.forall_mem_cons.mp hdigits
    have hd : d ≠ '_' := by
      rintro rfl
      exact absurd (hdigits '_' (List.mem_cons_self ..)) (by decide)
    rw [grouped?]
    · simp [radixValue?_of_isDigit hc, ih d hdigits]
    · simpa using hd

theorem spanGrouped_of_digits (hdigits : ∀ c ∈ digits, c.isDigit = true) :
    spanGrouped digits = (digits, []) := by
  have hgrouped : ∀ c ∈ digits, (c.isDigit || c == '_') = true := fun c hc => by
    simp [hdigits c hc]
  rw [spanGrouped, List.span_eq_takeWhile_dropWhile, List.takeWhile_eq_self_iff.mpr hgrouped,
    List.dropWhile_eq_nil_iff.mpr hgrouped]

/-- A text of digits behind a sign is the numeral of those digits. -/
theorem numeral?_of_splitSign {cs : List Char} {negative : Bool} {m : Nat}
    (h : splitSign cs = (negative, Nat.toDigits 10 m)) :
    numeral? cs = some { negative, whole := digitsOf m, fraction := none, power := none } := by
  have hspan := spanGrouped_of_digits (isDigits_toDigits m).isDigit
  have hwhole : grouped? 10 (Nat.toDigits 10 m) = some (digitsOf m) :=
    grouped?_of_digits (isDigits_toDigits m)
  simpa [numeral?, h, hspan, hwhole] using head?_digitsOf m

theorem splitSign_intText (n : Int) :
    splitSign (Value.intText n).toList = (decide (n < 0), Nat.toDigits 10 n.natAbs) := by
  rw [toList_intText]
  by_cases h : n < 0
  · simp [h, splitSign]
  · simp [h, (isDigits_toDigits n.natAbs).splitSign_eq]

/-- Nor is it taken for a number in another notation. -/
theorem radixInteger?_intText (n : Int) : radixInteger? (Value.intText n).toList = none := by
  have hletter : ∀ {c digits}, c ≠ '-' → c.isDigit = false →
      (Value.intText n).toList ≠ '0' :: c :: digits := fun hminus hdigit heq =>
    not_mem_intText hminus hdigit (n := n) (by simp [heq])
  unfold radixInteger?
  split
  · exact absurd ‹_› (hletter (by decide) (by decide))
  · exact absurd ‹_› (hletter (by decide) (by decide))
  · exact absurd ‹_› (hletter (by decide) (by decide))
  · rfl

theorem special?_intText (n : Int) : special? (Value.intText n).toList = none := by
  have hdigits := (isDigits_toDigits n.natAbs).isDigit
  rw [special?, splitSign_intText]
  dsimp only
  rw [if_neg, if_neg]
  · intro h
    rw [beq_iff_eq.mp h] at hdigits
    exact absurd (hdigits 'n' (by simp)) (by decide)
  · intro h
    rw [beq_iff_eq.mp h] at hdigits
    exact absurd (hdigits 'i' (by simp)) (by decide)

theorem number?_intText {n : Int} (h : fitsWord n = true) :
    number? (Value.intText n).toList = some (.int n) := by
  have hnumeral : numeral? (Value.intText n).toList = some (.ofInt n) :=
    numeral?_of_splitSign (splitSign_intText n)
  have hbounded : boundedInteger? n = some (.int n) := by
    have hcount : (wordCount (128 - 1) : Int) = 2 ^ 127 := by decide
    rw [fitsWord_iff] at h
    rw [boundedInteger?, if_pos]
    rw [Bool.or_eq_true, fitsSigned, Bool.and_eq_true, decide_eq_true_eq, decide_eq_true_eq, hcount]
    exact .inl (by omega)
  rw [number?, radixInteger?_intText, special?_intText]
  simp only [hnumeral, Option.bind_eq_bind, Option.bind_some, Numeral.toInt_ofInt, hbounded]
  rfl

/-- What can follow a value: it goes on with no character of a number, and is no quote. -/
def Ends (rest : List Char) : Prop :=
  ∀ c ∈ rest.head?, isScalarChar c = false ∧ c ≠ '"' ∧ c ≠ '\''

theorem string_eq_none {c : Char} (hdouble : c ≠ '"') (hsingle : c ≠ '\'') (cs : List Char) :
    string (c :: cs) = none := by
  rw [string, between_eq_none hdouble, between_eq_none hsingle]

/-- What begins like nothing else is no single value. -/
theorem single_eq_none {c : Char} (hdouble : c ≠ '"') (hsingle : c ≠ '\'')
    (hscalar : isScalarChar c = false) (cs : List Char) : single (c :: cs) = none := by
  have hrun : Reader.run isScalarChar (c :: cs) = none := by
    rw [Reader.run, if_neg (by simp [hscalar])]
  rw [single, string_eq_none hdouble hsingle, scalar, hrun]
  rfl

theorem single_of_string {cs rest : List Char} {s : String} (h : Reads string cs s rest) :
    Reads single cs (.text s) rest := by
  obtain ⟨hlength, h⟩ := h
  exact ⟨hlength, by rw [single, h]⟩

theorem isScalarChar_of_mem {n : Int} {c : Char} (h : c ∈ (Value.intText n).toList) :
    isScalarChar c = true := by
  rcases eq_minus_or_isDigit_of_mem h with rfl | h
  · rfl
  · simp [isScalarChar, Char.isAlphanum, h]

theorem scalar_intText {n : Int} (h : fitsWord n = true) {rest : List Char} (hrest : Ends rest) :
    Reads scalar ((Value.intText n).toList ++ rest) (.int n) rest := by
  obtain ⟨hlength, hrun⟩ := Reader.run_append (canonical_intText n).denotes.isWord.ne_nil
    (fun c hc => isScalarChar_of_mem hc) fun c hc => (hrest c hc).1
  obtain ⟨hdate, hmoment⟩ := read?_intText n
  refine ⟨hlength, ?_⟩
  have hletter : 'e' ∉ (Value.intText n).toList := not_mem_intText (by decide) (by decide)
  have hscalar : scalar? (Value.intText n).toList = some (.int n) := by
    rw [scalar?, if_neg, if_neg, hmoment, number?_intText h]
    · intro heq
      rw [heq] at hletter
      exact hletter (by decide)
    · intro heq
      rw [heq] at hletter
      exact hletter (by decide)
  simp [scalar, hrun, hdate, hscalar]

theorem single_intText {n : Int} (h : fitsWord n = true) {rest : List Char} (hrest : Ends rest) :
    Reads single ((Value.intText n).toList ++ rest) (.int n) rest := by
  obtain ⟨c, tail, hsplit⟩ :=
    List.exists_cons_of_ne_nil (canonical_intText n).denotes.isWord.ne_nil
  have hc : isScalarChar c = true := isScalarChar_of_mem (hsplit ▸ List.mem_cons_self ..)
  have hread := scalar_intText h hrest
  rw [hsplit, List.cons_append] at hread ⊢
  obtain ⟨hlength, hread⟩ := hread
  refine ⟨hlength, ?_⟩
  have hdouble : c ≠ '"' := by
    rintro rfl
    cases hc
  have hsingle : c ≠ '\'' := by
    rintro rfl
    cases hc
  rw [single, string_eq_none hdouble hsingle, hread]

/-! ### Gaps -/

theorem skipGap_eq (cs : List Char) :
    (skipGap cs).1 =
      ((lineEnd? (skipRemark cs).1).map fun rest => (skipGap rest.1).1).getD (skipRemark cs).1 := by
  rw [skipGap]
  split
  · rename_i heq
    rw [heq]
    rfl
  · rename_i heq
    rw [heq]
    rfl

theorem skipRemark_cons {c : Char} (hblank : isBlank c = false) (hcomment : c ≠ '#')
    (cs : List Char) : (skipRemark (c :: cs)).1 = c :: cs := by
  have hdrop : (c :: cs).dropWhile isBlank = c :: cs :=
    List.dropWhile_cons_of_neg (by simp [hblank])
  have hskip : (skipComment (c :: cs)).1 = c :: cs := by
    rw [skipComment]
    · rfl
    · simpa using hcomment
  show (skipComment ((c :: cs).dropWhile isBlank)).1 = c :: cs
  rw [hdrop, hskip]

theorem isBlank_of_not_mem {c : Char} (h : c ∉ [' ', '\t', '#', '\n', '\r']) :
    isBlank c = false := by
  simp only [List.mem_cons, not_or] at h
  simp [isBlank, h.1, h.2.1]

/-- A gap ends at the first character that is neither blank nor the end of a line. -/
theorem skipGap_cons {c : Char} (h : c ∉ [' ', '\t', '#', '\n', '\r']) (cs : List Char) :
    (skipGap (c :: cs)).1 = c :: cs := by
  have hblank := isBlank_of_not_mem h
  simp only [List.mem_cons, List.not_mem_nil, or_false, not_or] at h
  obtain ⟨-, -, hcomment, hline, hreturn⟩ := h
  rw [skipGap_eq, skipRemark_cons hblank hcomment, lineEnd?_cons hline hreturn]
  rfl

theorem skipGap_blank (cs : List Char) : (skipGap (' ' :: cs)).1 = (skipGap cs).1 := by
  have hremark : (skipRemark (' ' :: cs)).1 = (skipRemark cs).1 := rfl
  rw [skipGap_eq, skipGap_eq cs, hremark]

theorem skipGap_line (cs : List Char) : (skipGap ('\n' :: cs)).1 = (skipGap cs).1 := by
  rw [skipGap_eq]
  rfl

/-! ### Lists -/

variable {depth : Nat} {doc : Document} {rest : List Char}

/-- The values that are read as they have been written: texts, signed words, and lists of these that nest
at most this deep. -/
inductive Exact : Nat → Document → Prop
  | int {depth : Nat} {n : Int} : fitsWord n = true → Exact depth (.int n)
  | text {depth : Nat} (s : String) : Exact depth (.text s)
  | list {depth : Nat} {items : List Document} :
      (∀ item ∈ items, Exact depth item) → Exact (depth + 1) (.list items)

theorem valueTexts_eq_map (items : List Document) : valueTexts items = items.map valueText := by
  induction items with
  | nil => rfl
  | cons doc items ih => rw [valueTexts, ih, List.map_cons]

theorem value_succ (depth : Nat) (cs : List Char) :
    value (depth + 1) cs =
      match cs with
      | '[' :: rest =>
        (Reader.items skipGap true (value depth) ']' rest).bind fun (items, last) =>
          some (.list items, last.widen (Nat.le_succ _))
      | '\x7b' :: rest =>
        (Reader.items skipGap true (assignment skipGap (value depth)) '\x7d' rest).bind
          fun (items, last) => (Entries.assignAll? [] items).bind fun entries =>
            some (.table (entryDocuments entries), last.widen (Nat.le_succ _))
      | cs => single cs :=
  rfl

theorem value_of_single {cs : List Char} (h : Reads single cs doc rest) :
    Reads (value depth) cs doc rest := by
  cases depth with
  | zero => exact h
  | succ depth =>
    obtain ⟨hlength, h⟩ := h
    refine ⟨hlength, ?_⟩
    rw [value_succ]
    split
    · cases (single_eq_none (by decide) (by decide) (by decide) _).symm.trans h
    · cases (single_eq_none (by decide) (by decide) (by decide) _).symm.trans h
    · exact h

theorem value_list {cs : List Char} {items : List Document}
    (h : Reads (Reader.items skipGap true (value depth) ']') cs items rest) :
    Reads (value (depth + 1)) ('[' :: cs) (.list items) rest := by
  obtain ⟨hlength, h⟩ := h
  refine ⟨Nat.lt_succ_of_lt hlength, ?_⟩
  have hvalue : value (depth + 1) ('[' :: cs) =
      (Reader.items skipGap true (value depth) ']' cs).bind fun (items, last) =>
        some (.list items, last.widen (Nat.le_succ _)) := value_succ depth _
  rw [hvalue, h]
  rfl

theorem ends_cons {c : Char} (h : isScalarChar c = false ∧ c ≠ '"' ∧ c ≠ '\'') (cs : List Char) :
    Ends (c :: cs) := by
  rintro _ ⟨⟩
  exact h

/-- A text begins with a quote. -/
theorem exists_cons_quoted (cs : List Char) :
    ∃ c tail, quoted cs = c :: tail ∧ (c = '"' ∨ c = '\'') := by
  unfold quoted
  dsimp only
  split
  · exact ⟨_, _, rfl, .inl rfl⟩
  · exact ⟨_, _, rfl, .inr rfl⟩
  · exact ⟨_, _, rfl, .inl rfl⟩
  · exact ⟨_, _, rfl, .inr rfl⟩

theorem exists_cons_layItems (items : List (List Char)) : ∃ tail, layItems items = '[' :: tail := by
  rcases items with _ | ⟨item, _ | ⟨next, items⟩⟩
  · exact ⟨_, rfl⟩
  · exact ⟨_, rfl⟩
  · exact ⟨_, rfl⟩

/-- What is written begins neither with something that a gap may hold nor with what closes a list. -/
theorem exists_cons_valueText (h : Exact depth doc) :
    ∃ c tail, valueText doc = c :: tail ∧ c ≠ ']' ∧ c ∉ [' ', '\t', '#', '\n', '\r'] := by
  cases h with
  | @int _ n _ =>
    obtain ⟨c, tail, hsplit⟩ :=
      List.exists_cons_of_ne_nil (canonical_intText n).denotes.isWord.ne_nil
    have hc : isScalarChar c = true := isScalarChar_of_mem (hsplit ▸ List.mem_cons_self ..)
    refine ⟨c, tail, hsplit, ?_, fun hmem => ?_⟩
    · rintro rfl
      cases hc
    · simp only [List.mem_cons, List.not_mem_nil, or_false] at hmem
      rcases hmem with rfl | rfl | rfl | rfl | rfl <;> cases hc
  | text s =>
    obtain ⟨c, tail, hsplit, rfl | rfl⟩ := exists_cons_quoted s.toList
    · exact ⟨_, tail, hsplit, by decide, by decide⟩
    · exact ⟨_, tail, hsplit, by decide, by decide⟩
  | list _ =>
    obtain ⟨tail, hsplit⟩ := exists_cons_layItems (valueTexts _)
    exact ⟨_, tail, hsplit, by decide, by decide⟩

theorem isItem_valueText (h : Exact depth doc)
    (hread : ∀ {rest}, Ends rest → Reads (value depth) (valueText doc ++ rest) doc rest) :
    Reader.IsItem skipGap (value depth) ']' (valueText doc) doc := by
  obtain ⟨c, tail, hsplit, hclose, hgap⟩ := exists_cons_valueText h
  refine ⟨⟨c, tail, hsplit, hclose, skipGap_cons hgap⟩, fun d hd rest => hread (ends_cons ?_ rest)⟩
  rcases List.mem_pair.mp hd with rfl | rfl <;> decide

/-- Items that have a line each, with a comma behind each of them. -/
theorem flatMap_lines (item : List Char) (items : List (List Char)) (rest : List Char) :
    '\n' :: ((item :: items).flatMap (fun item => "    ".toList ++ item ++ [',', '\n']) ++ rest) =
      "\n    ".toList ++ (item ++ (items.flatMap (fun next => ',' :: ("\n    ".toList ++ next)) ++
        ',' :: (['\n'] ++ rest))) := by
  induction items generalizing item with
  | nil => simp
  | cons next items ih => simpa using ih next

theorem isGap_lines : Reader.IsGap skipGap "\n    ".toList := by
  intro c cs h
  show (skipGap ('\n' :: ' ' :: ' ' :: ' ' :: ' ' :: c :: cs)).1 = c :: cs
  rw [skipGap_line, skipGap_blank, skipGap_blank, skipGap_blank, skipGap_blank, h]

theorem isGap_line : Reader.IsGap skipGap ['\n'] := by
  intro c cs h
  rw [List.singleton_append, skipGap_line, h]

/-- A list is read in each of the three ways in which lists are written. -/
theorem items_layItems {texts : List (List Char)} {items : List Document}
    (h : List.Forall₂ (Reader.IsItem skipGap (value depth) ']') texts items) (rest : List Char) :
    Reads (value (depth + 1)) (layItems texts ++ rest) (.list items) rest := by
  have hcomma : ∀ cs, (skipGap (',' :: cs)).1 = ',' :: cs := skipGap_cons (by decide)
  have hend : ∀ cs, (skipGap (']' :: cs)).1 = ']' :: cs := skipGap_cons (by decide)
  cases h with
  | nil => exact value_list (Reader.items_nil (hend rest))
  | @cons text item texts items hitem hitems =>
    cases hitems with
    | nil =>
      have hread : Reads (Reader.items skipGap true (value depth) ']')
          ([','].intercalate [text] ++ ']' :: rest) [item] rest :=
        Reader.items_inline hcomma hend (by decide) (.cons hitem .nil) rest
      rw [List.intercalate_singleton] at hread
      simp only [layItems, List.cons_append, List.append_assoc, List.nil_append]
      exact value_list hread
    | cons hnext hitems =>
      have hread := Reader.items_lines hcomma hend (by decide) isGap_lines isGap_line hitem
        (.cons hnext hitems) rest
      rw [← flatMap_lines] at hread
      rw [layItems, List.append_assoc, List.append_assoc]
      · exact value_list hread
      · nofun
      · nofun

/-- **A value is read as it has been written.** -/
theorem value_valueText (h : Exact depth doc) {rest : List Char} (hrest : Ends rest) :
    Reads (value depth) (valueText doc ++ rest) doc rest := by
  induction h generalizing rest with
  | int hn => exact value_of_single (single_intText hn hrest)
  | text s =>
    have hread := single_of_string (string_quoted s.toList fun c hc => (hrest c hc).2)
    rw [String.ofList_toList] at hread
    exact value_of_single hread
  | @list depth items hitems ih =>
    refine items_layItems ?_ rest
    rw [valueTexts_eq_map, List.forall₂_map_left_iff, List.forall₂_same]
    exact fun item hitem => isItem_valueText (hitems item hitem) (ih item hitem)

end ContainerCommand.Toml
