import ContainerCommand.Json.Printer
import ContainerCommand.Json.Reader
import ContainerCommand.Proofs.Number.Integer
import ContainerCommand.Proofs.Text.Reader

/-! Reading JSON that has been written.

What is written on one line is read as what it was (`value_compact`), where nothing is lost by writing
it: numbers are whole and signed words, and lists and tables nest no deeper than is read
(`Exact`). -/
namespace ContainerCommand.Json
open Number Text

/-! ### Texts -/

theorem radixValue?_digitChar : ∀ n < 16, radixValue? 16 (Nat.digitChar n) = some n := by
  decide

theorem ofRadix?_hexPair {n : Nat} (h : n < 256) :
    ofRadix? 16 (['0', '0'] ++ hexPair n) = some n := by
  have hhigh := radixValue?_digitChar (n / 16) (by omega)
  have hlow := radixValue?_digitChar (n % 16) (by omega)
  have hzero : radixValue? 16 '0' = some 0 := by decide
  simp [ofRadix?, hexPair, hhigh, hlow, hzero]
  omega

/-- An escape of four digits that stands for a character by itself, whatever follows. -/
theorem body_unit {a b d e : Char} {n : Nat} (hn : ofRadix? 16 [a, b, d, e] = some n)
    (hlow : isLowSurrogate n = false) (hhigh : isHighSurrogate n = false) (rest : List Char) :
    body .meaning ('\\' :: 'u' :: a :: b :: d :: e :: rest) =
      (body .meaning rest).map fun (cs, last) => (Char.ofNat n :: cs, last) := by
  have hunit : ∀ second, Policy.meaning.unit? n second = some (Char.ofNat n, false) := by
    intro second
    simp [Policy.meaning, unit?, hlow, hhigh]
  rw [body.eq_def]
  split
  · contradiction
  · rename_i heq
    cases heq
  · rename_i heq
    cases heq
    simp only [hn, hunit, hhigh, Option.bind_eq_bind, Option.bind_some, Bool.false_eq_true, if_false]
    exact Option.map_eq_bind.symm
  · rename_i heq
    cases heq
    simp only [hn, hunit, Option.bind_eq_bind, Option.bind_some]
    exact Option.map_eq_bind.symm
  · rename_i hnot heq
    cases heq
    exact absurd rfl (hnot _ _ _ _ _ rfl)
  · rename_i hnot heq
    cases heq
    exact absurd rfl (hnot _ _ rfl)

theorem body_escaped {c unit : Char} (h : escaped? c = some unit) (rest : List Char) :
    body .meaning ('\\' :: c :: rest) =
      (body .meaning rest).map fun (cs, last) => (unit :: cs, last) := by
  have hc : c ≠ 'u' := by
    rintro rfl
    cases h
  rw [body.eq_5]
  · simp only [h, Option.bind_eq_bind, Option.bind_some]
    exact Option.map_eq_bind.symm
  all_goals simp [hc]

theorem body_plain {c : Char} (hquote : c ≠ '"') (hslash : c ≠ '\\') (hcontrol : ¬c.toNat < 0x20)
    (rest : List Char) :
    body .meaning (c :: rest) = (body .meaning rest).map fun (cs, last) => (c :: cs, last) := by
  rw [body.eq_6]
  · simp only [hcontrol, if_false, Option.bind_eq_bind]
    exact Option.map_eq_bind.symm
  all_goals simp [hquote, hslash]

/-- A character is read as itself from what it is written as. -/
theorem body_escape (c : Char) (rest : List Char) :
    body .meaning (escape c ++ rest) =
      (body .meaning rest).map fun (cs, last) => (c :: cs, last) := by
  unfold escape
  simp only [beq_iff_eq]
  split_ifs with hquote hslash hline hreturn htab hback hform hcontrol
  · subst hquote
    exact body_escaped rfl rest
  · subst hslash
    exact body_escaped rfl rest
  · subst hline
    exact body_escaped rfl rest
  · subst hreturn
    exact body_escaped rfl rest
  · subst htab
    exact body_escaped rfl rest
  · subst hback
    exact body_escaped rfl rest
  · subst hform
    exact body_escaped rfl rest
  · have hlow : isLowSurrogate c.toNat = false := by
      simp [isLowSurrogate]
      omega
    have hhigh : isHighSurrogate c.toNat = false := by
      simp [isHighSurrogate]
      omega
    have hunit := body_unit (ofRadix?_hexPair (by omega)) hlow hhigh rest
    rwa [Char.ofNat_toNat] at hunit
  · exact body_plain hquote hslash hcontrol rest

theorem body_flatMap_escape (cs rest : List Char) :
    body .meaning (cs.flatMap escape ++ '"' :: rest) = some (cs, rest) := by
  induction cs with
  | nil => rfl
  | cons c cs ih => rw [List.flatMap_cons, List.append_assoc, body_escape, ih, Option.map_some]

theorem toList_quoted (s : String) : (quoted s).toList = '"' :: (s.toList.flatMap escape ++ ['"']) := by
  simp [quoted]

theorem string_quoted (s : String) (rest : List Char) :
    Reads (string .meaning) ((quoted s).toList ++ rest) s rest := by
  have hbody := body_flatMap_escape s.toList rest
  rw [toList_quoted, List.cons_append, List.append_assoc, List.singleton_append]
  refine ⟨by simp; omega, ?_⟩
  simp only [string]
  split
  · rename_i h
    cases hbody.symm.trans h
  · rename_i h
    cases hbody.symm.trans h
    rw [String.ofList_toList]

/-! ### Numbers -/

theorem spanDigits_toDigits (m : Nat) : spanDigits (Nat.toDigits 10 m) = (digitsOf m, []) := by
  have h := (isDigits_toDigits m).isDigit
  rw [spanDigits, List.takeWhile_eq_self_iff.mpr h, List.dropWhile_eq_nil_iff.mpr h, digitsOf]

theorem numeral?_toDigits (negative : Bool) (m : Nat) :
    numeral? ((if negative then ['-'] else []) ++ Nat.toDigits 10 m) =
      some { negative, whole := digitsOf m, fraction := none, power := none } := by
  have hspan := spanDigits_toDigits m
  have hhead := head?_digitsOf m
  have hne : (digitsOf m).isEmpty = false := by
    simp [digitsOf, Nat.toDigits_ne_nil]
  cases negative with
  | true => simp [numeral?, hspan, hhead, hne, readPower?]
  | false =>
    have hdigits := isDigits_toDigits m
    obtain ⟨c, rest, hsplit⟩ := List.exists_cons_of_ne_nil hdigits.ne_nil
    have hc : c ≠ '-' := by
      rintro rfl
      exact absurd (hdigits.isDigit '-' (hsplit ▸ List.mem_cons_self ..)) (by decide)
    rw [hsplit] at hspan ⊢
    simp [numeral?, hc, hspan, hhead, hne, readPower?]

/-- The text of an integer is a numeral of digits behind at most a minus. -/
theorem numeral?_intText (n : Int) : numeral? (Value.intText n).toList = some (.ofInt n) := by
  have h := numeral?_toDigits (decide (n < 0)) n.natAbs
  simp only [decide_eq_true_eq] at h
  rw [toList_intText, h]
  rfl

theorem number?_ofInt {n : Int} (h : fitsWord n = true) : number? (.ofInt n) = some (.int n) := by
  have hzero : ((Numeral.ofInt n).negative && (n == 0)) = false := by
    simp [Numeral.ofInt]
    omega
  have hwhole : (Numeral.ofInt n).isWhole = true := rfl
  rw [number?, Numeral.toInt_ofInt, hzero, hwhole, h]
  rfl

/-- The characters that can follow a document, so that a number at its end is over. -/
def Ends (rest : List Char) : Prop :=
  ∀ c ∈ rest.head?, isNumeralChar c = false

theorem isNumeralChar_of_mem {n : Int} {c : Char} (h : c ∈ (Value.intText n).toList) :
    isNumeralChar c = true := by
  rcases eq_minus_or_isDigit_of_mem h with rfl | h
  · rfl
  · simp [isNumeralChar, h]

theorem single_intText {n : Int} (h : fitsWord n = true) {rest : List Char} (hrest : Ends rest) :
    Reads (single .meaning) ((Value.intText n).toList ++ rest) (.int n) rest := by
  have hread := Reader.run_append (canonical_intText n).denotes.isWord.ne_nil
    (fun c hc => isNumeralChar_of_mem hc) hrest
  have hnumber : Policy.meaning.number? (.ofInt n) = some (.int n) := number?_ofInt h
  have hnumeral := numeral?_intText n
  obtain ⟨c, tail, hsplit⟩ :=
    List.exists_cons_of_ne_nil (canonical_intText n).denotes.isWord.ne_nil
  have hc : isNumeralChar c = true := isNumeralChar_of_mem (hsplit ▸ List.mem_cons_self ..)
  have hstart : c ≠ 'n' ∧ c ≠ 't' ∧ c ≠ 'f' ∧ c ≠ '"' := by
    refine ⟨?_, ?_, ?_, ?_⟩ <;> rintro rfl <;> revert hc <;> decide
  rw [hsplit, List.cons_append] at hread
  rw [hsplit] at hnumeral
  rw [hsplit, List.cons_append]
  obtain ⟨hlength, hrun⟩ := hread
  refine ⟨hlength, ?_⟩
  simp [single, hstart, hrun, hnumeral, hnumber]

/-! ### Documents -/

/-- The documents that writing loses nothing of: numbers are whole and signed words, and lists and
tables nest at most this deep. -/
inductive Exact : Nat → Document → Prop
  | null {depth : Nat} : Exact depth .null
  | bool {depth : Nat} (b : Bool) : Exact depth (.bool b)
  | int {depth : Nat} {n : Int} : fitsWord n = true → Exact depth (.int n)
  | text {depth : Nat} (s : String) : Exact depth (.text s)
  | list {depth : Nat} {items : List Document} :
      (∀ item ∈ items, Exact depth item) → Exact (depth + 1) (.list items)
  | table {depth : Nat} {entries : List (String × Document)} :
      (∀ entry ∈ entries, Exact depth entry.2) → Exact (depth + 1) (.table entries)

variable {depth : Nat} {doc : Document} {rest : List Char}

theorem isSpace_of_isNumeralChar {c : Char} (h : isNumeralChar c = true) : isSpace c = false := by
  rw [Bool.eq_false_iff]
  intro hspace
  simp only [isSpace, Bool.or_eq_true, beq_iff_eq] at hspace
  rcases hspace with ((rfl | rfl) | rfl) | rfl <;> cases h

theorem skip_cons {c : Char} (h : isSpace c = false) (cs : List Char) :
    (skip (c :: cs)).1 = c :: cs := by
  simp [skip, Suffix.dropWhile, h]

theorem ends_cons {c : Char} (h : isNumeralChar c = false) (cs : List Char) : Ends (c :: cs) := by
  rintro _ ⟨⟩
  exact h

theorem compactItems_eq_map (items : List Document) : compactItems items = items.map compact := by
  induction items with
  | nil => rfl
  | cons doc items ih => rw [compactItems, ih, List.map_cons]

theorem compactEntries_eq_map (entries : List (String × Document)) :
    compactEntries entries =
      entries.map fun entry => quoted entry.1 ++ ":" ++ compact entry.2 := by
  induction entries with
  | nil => rfl
  | cons entry entries ih => rw [compactEntries, ih, List.map_cons]

theorem toList_joinInline (opening closing : String) (members : List String) :
    (joinInline opening closing members).toList =
      opening.toList ++ ([','].intercalate (members.map String.toList) ++ closing.toList) := by
  simp [joinInline, String.toList_intercalate]

/-- What is written begins with no blank and does not close a list or table. -/
theorem exists_cons_compact (h : Exact depth doc) :
    ∃ c tail, (compact doc).toList = c :: tail ∧ isSpace c = false ∧ c ≠ ']' ∧ c ≠ '\x7d' := by
  cases h with
  | null => exact ⟨_, _, rfl, rfl, by decide, by decide⟩
  | bool b => cases b <;> exact ⟨_, _, rfl, rfl, by decide, by decide⟩
  | @int _ n _ =>
    obtain ⟨c, tail, hsplit⟩ :=
      List.exists_cons_of_ne_nil (canonical_intText n).denotes.isWord.ne_nil
    have hc : isNumeralChar c = true := isNumeralChar_of_mem (hsplit ▸ List.mem_cons_self ..)
    refine ⟨c, tail, hsplit, isSpace_of_isNumeralChar hc, ?_, ?_⟩ <;>
    · rintro rfl
      cases hc
  | text s => exact ⟨_, _, toList_quoted s, rfl, by decide, by decide⟩
  | list _ => exact ⟨_, _, toList_joinInline _ _ _, rfl, by decide, by decide⟩
  | table _ => exact ⟨_, _, toList_joinInline _ _ _, rfl, by decide, by decide⟩

/-- What is no list and no table is read alike at every depth. -/
theorem value_of_single {cs : List Char} (h : Reads (single .meaning) cs doc rest) :
    Reads (value .meaning depth) cs doc rest := by
  cases depth with
  | zero => exact h
  | succ depth =>
    obtain ⟨hlength, h⟩ := h
    refine ⟨hlength, ?_⟩
    rw [value]
    dsimp only
    split
    · cases h
    · cases h
    · exact h

/-- An entry is read as it has been written if what stands under its name is. -/
theorem entry_quoted {read : String → Reader Document} {name : String} {text : List Char}
    (hskip : (skip text).1 = text) (h : Reads (read name) text doc rest) :
    Reads (entry .meaning read) ((quoted name).toList ++ ':' :: text) (name, doc) rest := by
  have hcolon := skip_cons (c := ':') rfl text
  have hlength := h.1
  obtain ⟨hname, hread⟩ := string_quoted name (':' :: text)
  rw [← hskip] at h
  obtain ⟨_, h⟩ := h
  refine ⟨by simp at hname ⊢; omega, ?_⟩
  simp only [entry, hread, Option.bind_eq_bind, Option.bind_some]
  split
  · rename_i heq
    cases hcolon.symm.trans heq
    rw [h]
    rfl
  · rename_i hnot
    exact absurd hcolon (hnot _)

theorem isItem_compact (h : Exact depth doc) {reader : Reader Document}
    (hread : ∀ {rest}, Ends rest → Reads reader ((compact doc).toList ++ rest) doc rest) :
    Reader.IsItem skip reader ']' (compact doc).toList doc := by
  obtain ⟨c, tail, hsplit, hspace, hclose, -⟩ := exists_cons_compact h
  refine ⟨⟨c, tail, hsplit, hclose, skip_cons hspace⟩, fun d hd rest => hread (ends_cons ?_ rest)⟩
  rcases List.mem_pair.mp hd with rfl | rfl <;> rfl

theorem isItem_entry {name : String} {read : String → Reader Document} (h : Exact depth doc)
    (hread : ∀ {rest}, Ends rest → Reads (read name) ((compact doc).toList ++ rest) doc rest) :
    Reader.IsItem skip (entry .meaning read) '\x7d'
      (quoted name ++ ":" ++ compact doc).toList (name, doc) := by
  obtain ⟨c, tail, hsplit, hspace, -⟩ := exists_cons_compact h
  have htext : (quoted name ++ ":" ++ compact doc).toList =
      (quoted name).toList ++ ':' :: (compact doc).toList := by
    simp
  refine ⟨⟨'"', _, htext.trans (by rw [toList_quoted]; rfl), by decide, skip_cons rfl⟩,
    fun d hd rest => ?_⟩
  have hends : Ends (d :: rest) := by
    rcases List.mem_pair.mp hd with rfl | rfl <;> exact ends_cons rfl rest
  rw [htext, List.append_assoc, List.cons_append]
  refine entry_quoted ?_ (hread hends)
  rw [hsplit, List.cons_append]
  exact skip_cons hspace _

theorem items_compact {items : List Document} (h : ∀ item ∈ items, Exact depth item)
    {reader : Reader Document}
    (hread : ∀ item ∈ items, ∀ {rest}, Ends rest →
      Reads reader ((compact item).toList ++ rest) item rest) (rest : List Char) :
    Reads (Reader.items skip false reader ']')
      ([','].intercalate ((compactItems items).map String.toList) ++ ']' :: rest) items rest := by
  refine Reader.items_inline (skip_cons rfl) (skip_cons rfl) (by decide) ?_ rest
  rw [compactItems_eq_map, List.map_map, List.forall₂_map_left_iff, List.forall₂_same]
  exact fun item hitem => isItem_compact (h item hitem) (hread item hitem)

theorem entries_compact {entries : List (String × Document)}
    (h : ∀ entry ∈ entries, Exact depth entry.2) {read : String → Reader Document}
    (hread : ∀ entry ∈ entries, ∀ {rest}, Ends rest →
      Reads (read entry.1) ((compact entry.2).toList ++ rest) entry.2 rest) (rest : List Char) :
    Reads (Reader.items skip false (entry .meaning read) '\x7d')
      ([','].intercalate ((compactEntries entries).map String.toList) ++ '\x7d' :: rest) entries
      rest := by
  refine Reader.items_inline (skip_cons rfl) (skip_cons rfl) (by decide) ?_ rest
  rw [compactEntries_eq_map, List.map_map, List.forall₂_map_left_iff, List.forall₂_same]
  exact fun entry hentry => isItem_entry (h entry hentry) (hread entry hentry)

theorem value_list {cs : List Char} {items : List Document}
    (h : Reads (Reader.items skip false (value .meaning depth) ']') cs items rest) :
    Reads (value .meaning (depth + 1)) ('[' :: cs) (.list items) rest := by
  obtain ⟨hlength, h⟩ := h
  refine ⟨Nat.lt_succ_of_lt hlength, ?_⟩
  simp only [value, h]
  rfl

theorem value_table {cs : List Char} {entries : List (String × Document)}
    (h : Reads (Reader.items skip false (entry .meaning fun _ => value .meaning depth) '\x7d') cs
      entries rest) :
    Reads (value .meaning (depth + 1)) ('\x7b' :: cs) (.table entries) rest := by
  obtain ⟨hlength, h⟩ := h
  refine ⟨Nat.lt_succ_of_lt hlength, ?_⟩
  simp only [value, h]
  rfl

/-- **What has been written is read as what it was.** -/
theorem value_compact (h : Exact depth doc) {rest : List Char} (hrest : Ends rest) :
    Reads (value .meaning depth) ((compact doc).toList ++ rest) doc rest := by
  induction h generalizing rest with
  | null => exact value_of_single ⟨_, rfl⟩
  | bool b => cases b <;> exact value_of_single ⟨_, rfl⟩
  | int hn => exact value_of_single (single_intText hn hrest)
  | text s =>
    have hread := string_quoted s rest
    rw [compact, toList_quoted, List.cons_append] at *
    obtain ⟨hlength, hread⟩ := hread
    refine value_of_single ⟨hlength, ?_⟩
    simp [single, hread]
  | @list depth items hitems ih =>
    rw [compact, toList_joinInline, List.append_assoc, List.append_assoc]
    exact value_list (items_compact hitems (fun item hitem _ => ih item hitem) rest)
  | @table depth entries hentries ih =>
    rw [compact, toList_joinInline, List.append_assoc, List.append_assoc]
    exact value_table (entries_compact hentries (fun entry hentry _ => ih entry hentry) rest)

/-! ### Texts that hold nothing else -/

theorem whole?_of_reads {reader : Reader Document} {c : Char} {tail : List Char}
    (hspace : isSpace c = false) (h : Reads reader (c :: tail) doc []) :
    whole? reader (c :: tail) = some doc := by
  rw [← skip_cons hspace tail] at h
  obtain ⟨_, h⟩ := h
  rw [whole?, h]
  rfl

theorem record_table {names : List String} {cs : List Char} {entries : List (String × Document)}
    (h : Reads (Reader.items skip false (entry .meaning (field names)) '\x7d') cs entries rest) :
    Reads (record names) ('\x7b' :: cs) (.table entries) rest := by
  obtain ⟨hlength, h⟩ := h
  refine ⟨Nat.lt_succ_of_lt hlength, ?_⟩
  simp only [record, h]
  rfl

/-- A record is read from its text that has no field besides those that are asked for. -/
theorem readRecord?_compact {names : List String} {entries : List (String × Document)}
    (hnames : ∀ entry ∈ entries, entry.1 ∈ names)
    (h : ∀ entry ∈ entries, Exact (depthLimit - 1) entry.2) :
    readRecord? names (compact (.table entries)).toList = some (.table entries) := by
  have hfield : ∀ entry ∈ entries, field names entry.1 = value .meaning (depthLimit - 1) := by
    intro entry hentry
    funext cs
    rw [field, if_pos (List.contains_iff_mem.mpr (hnames entry hentry))]
  rw [compact, toList_joinInline]
  refine whole?_of_reads rfl (record_table (entries_compact h (fun entry hentry _ hrest => ?_) []))
  rw [hfield entry hentry]
  exact value_compact (h entry hentry) hrest

end ContainerCommand.Json
