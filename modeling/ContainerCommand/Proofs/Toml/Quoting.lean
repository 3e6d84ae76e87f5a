import ContainerCommand.Proofs.Text.Reader
import ContainerCommand.Toml.Text
import ContainerCommand.Toml.Writer

/-! Texts between quotes.

A text is written in one of four forms, and read as itself from the one it has (`string_quoted`). Between
three quotes up to two more may stand in front of the closing ones, so what matters there is how many
quotes come first in what is still to be read. -/
namespace ContainerCommand.Toml
open Text Number

variable {c d quote : Char} {cs ds rest s last : List Char}

/-! ### Escapes -/

theorem ofRadix?_codeDigits : ∀ n < 128, (codeDigits (Char.ofNat n)).length = 4 ∧
    ofRadix? 16 (codeDigits (Char.ofNat n)) = some n := by
  decide +kernel

theorem escape_letter (hwidth : escapeWidth? d = none) (hletter : escaped? d = some c) :
    Reads escape (d :: rest) c rest := by
  refine ⟨Nat.lt_succ_self _, ?_⟩
  rw [escape, hwidth]
  dsimp only
  rw [hletter]
  rfl

theorem needsCode_lt (h : needsCode c = true) : c.toNat < 128 := by
  simp only [needsCode, Bool.or_eq_true, Bool.and_eq_true, decide_eq_true_eq, beq_iff_eq] at h
  omega

theorem escape_codeDigits (h : needsCode c = true) :
    Reads escape ('u' :: (codeDigits c ++ rest)) c rest := by
  obtain ⟨hlength, hvalue⟩ := ofRadix?_codeDigits c.toNat (needsCode_lt h)
  rw [Char.ofNat_toNat] at hlength hvalue
  have htake : (codeDigits c ++ rest).take 4 = codeDigits c := hlength ▸ List.take_left
  have hdrop : (codeDigits c ++ rest).drop 4 = rest := hlength ▸ List.drop_left
  have hpoint : codePoint? c.toNat = some c := by
    have hvalid : c.toNat.isValidChar := c.valid
    rw [codePoint?, if_pos hvalid, Char.ofNat_toNat]
  refine ⟨by simp only [List.length_append, List.length_cons]; omega, ?_⟩
  simp [escape, escapeWidth?, htake, hlength, hvalue, hpoint, Rest.behind, Suffix.drop, hdrop]

/-- A character stands for itself within a text; the end of a line does so only over several lines. -/
def IsPlainIn (overLines : Bool) (c : Char) : Prop :=
  isPlain c = true ∨ overLines = true ∧ c = '\n'

theorem isPlain_of_needsCode (hcode : needsCode c = false) (hline : c ≠ '\n') :
    isPlain c = true := by
  simp only [needsCode, Bool.or_eq_false_iff, Bool.and_eq_false_iff, decide_eq_false_iff_not,
    bne_eq_false_iff_eq, beq_eq_false_iff_ne] at hcode
  simp only [isPlain, Bool.or_eq_true, Bool.and_eq_true, decide_eq_true_eq, bne_iff_ne, beq_iff_eq]
  obtain ⟨(hcontrol | rfl) | rfl, hdelete⟩ := hcode
  · exact .inr ⟨by omega, hdelete⟩
  · exact .inl rfl
  · exact absurd rfl hline

/-- A character other than a quote is written as itself, or as an escape that is read as it. -/
theorem escapeOf_cases (overLines : Bool) (c : Char) :
    (escapeOf overLines c = [c] ∧ c ≠ '\\' ∧ c ≠ '\r' ∧ IsPlainIn overLines c) ∨
      ∃ d ds, escapeOf overLines c = '\\' :: d :: ds ∧ isBlank d = false ∧ d ≠ '\n' ∧ d ≠ '\r' ∧
        ∀ rest, Reads escape (d :: (ds ++ rest)) c rest := by
  unfold escapeOf
  split
  · exact .inr ⟨_, _, rfl, rfl, by decide, by decide, fun rest => escape_letter rfl rfl⟩
  · exact .inr ⟨_, _, rfl, rfl, by decide, by decide, fun rest => escape_letter rfl rfl⟩
  · cases overLines with
    | true => exact .inl ⟨rfl, by decide, by decide, .inr ⟨rfl, rfl⟩⟩
    | false => exact .inr ⟨_, _, rfl, rfl, by decide, by decide, fun rest => escape_letter rfl rfl⟩
  · exact .inr ⟨_, _, rfl, rfl, by decide, by decide, fun rest => escape_letter rfl rfl⟩
  · exact .inr ⟨_, _, rfl, rfl, by decide, by decide, fun rest => escape_letter rfl rfl⟩
  · exact .inr ⟨_, _, rfl, rfl, by decide, by decide, fun rest => escape_letter rfl rfl⟩
  · rename_i hline _ hreturn hslash
    split
    · rename_i hcode
      exact .inr ⟨_, _, rfl, rfl, by decide, by decide, fun rest => escape_codeDigits hcode⟩
    · rename_i hcode
      exact .inl ⟨rfl, hslash, hreturn,
        .inl (isPlain_of_needsCode (Bool.eq_false_iff.mpr hcode) hline)⟩

/-! ### Texts of one line -/

theorem basic_end (rest : List Char) : Reads basic ('"' :: rest) [] rest :=
  ⟨Nat.lt_succ_self _, by rw [basic]; rfl⟩

theorem basic_escaped (hescape : Reads escape (d :: ds) c cs) (h : Reads basic cs s last) :
    Reads basic ('\\' :: d :: ds) (c :: s) last := by
  obtain ⟨hlength, hescape⟩ := hescape
  obtain ⟨hlength', h⟩ := h
  refine ⟨by simp at hlength ⊢; omega, ?_⟩
  rw [basic, hescape]
  dsimp only
  rw [h]
  rfl

theorem basic_plain (hquote : c ≠ '"') (hslash : c ≠ '\\') (hplain : isPlain c = true)
    (h : Reads basic cs s last) : Reads basic (c :: cs) (c :: s) last := by
  obtain ⟨hlength, h⟩ := h
  refine ⟨Nat.lt_succ_of_lt hlength, ?_⟩
  rw [basic, if_pos hplain, h]
  · rfl
  · exact hquote
  · exact hslash

theorem basic_escapeAll (cs rest : List Char) :
    Reads basic (escapeAll false 0 cs ++ '"' :: rest) cs rest := by
  induction cs with
  | nil => exact basic_end rest
  | cons c cs ih =>
    rw [escapeAll]
    split
    · rename_i hc
      subst hc
      exact basic_escaped (escape_letter rfl rfl) ih
    · rename_i hc
      rcases escapeOf_cases false c with ⟨hself, hslash, -, hplain⟩ | ⟨d, ds, hescape, -, -, -, hread⟩
      · rw [hself]
        exact basic_plain hc hslash (hplain.resolve_right (by simp)) ih
      · rw [hescape, List.append_assoc]
        exact basic_escaped (hread _) ih

theorem literal_end (rest : List Char) : Reads literal ('\'' :: rest) [] rest :=
  ⟨Nat.lt_succ_self _, by rw [literal, if_pos rfl]; rfl⟩

theorem literal_plain (hquote : c ≠ '\'') (hplain : isPlain c = true)
    (h : Reads literal cs s last) : Reads literal (c :: cs) (c :: s) last := by
  obtain ⟨hlength, h⟩ := h
  refine ⟨Nat.lt_succ_of_lt hlength, ?_⟩
  rw [literal, if_neg hquote, if_pos hplain, h]
  rfl

theorem literal_append (hcs : ∀ c ∈ cs, isPlain c = true ∧ c ≠ '\'') (rest : List Char) :
    Reads literal (cs ++ '\'' :: rest) cs rest := by
  induction cs with
  | nil => exact literal_end rest
  | cons c cs ih =>
    obtain ⟨⟨hplain, hquote⟩, hcs⟩ := List.forall_mem_cons.mp hcs
    exact literal_plain hquote hplain (ih hcs)

/-! ### Texts of several lines -/

/-- How many quotes a text begins with. -/
def leading (quote : Char) (cs : List Char) : Nat :=
  (cs.takeWhile (· == quote)).length

theorem closing?_eq_none_of_ne (h : ∀ rest, cs ≠ quote :: quote :: quote :: rest) :
    closing? quote cs = none := by
  rw [closing?.eq_def]
  split
  · rename_i a b c rest
    rw [if_neg]
    rintro ⟨rfl, rfl, rfl⟩
    exact h rest rfl
  · rfl

/-- The end of a text is found where only quotes are left of it. -/
theorem closing?_of_forall (hrun : leading quote cs ≤ 2) (hall : ∀ c ∈ cs, c = quote)
    (hlast : last.head? ≠ some quote) :
    Reads (closing? quote) (cs ++ quote :: quote :: quote :: last) cs last := by
  refine ⟨by simp; omega, ?_⟩
  rcases cs with _ | ⟨a, _ | ⟨b, _ | ⟨d, tail⟩⟩⟩
  · rcases last with _ | ⟨d, _ | ⟨e, last⟩⟩ <;> simp_all [closing?] <;> rfl
  · rcases last with _ | ⟨d, last⟩ <;> simp_all [closing?] <;> rfl
  · simp_all [closing?]
    rfl
  · simp_all [leading]

/-- It is not found before. -/
theorem closing?_eq_none (hrun : leading quote cs ≤ 2) (hne : ∃ c ∈ cs, c ≠ quote) :
    closing? quote (cs ++ quote :: quote :: quote :: last) = none := by
  refine closing?_eq_none_of_ne fun rest heq => ?_
  rcases cs with _ | ⟨a, _ | ⟨b, _ | ⟨d, tail⟩⟩⟩ <;> simp_all [leading]

theorem longestRun_mono {m n : Nat} (h : m ≤ n) (cs : List Char) :
    longestRun c m cs ≤ longestRun c n cs := by
  induction cs generalizing m n with
  | nil => exact h
  | cons d cs ih =>
    rw [longestRun, longestRun]
    split
    · exact ih (Nat.succ_le_succ h)
    · omega

theorem longestRun_tail_le (d : Char) (cs : List Char) :
    longestRun c 0 cs ≤ longestRun c 0 (d :: cs) := by
  rw [longestRun]
  split
  · exact longestRun_mono (Nat.zero_le _) cs
  · exact Nat.le_max_right ..

theorem leading_le_longestRun (n : Nat) (cs : List Char) :
    n + leading c cs ≤ longestRun c n cs := by
  induction cs generalizing n with
  | nil => exact Nat.le_refl _
  | cons d cs ih =>
    rw [longestRun]
    by_cases h : d = c
    · have := ih (n + 1)
      simp [leading, h] at this ⊢
      omega
    · have hnone : leading c (d :: cs) = 0 := by simp [leading, h]
      rw [hnone, if_neg h]
      exact Nat.le_max_left ..

theorem not_mem_of_longestRun (h : longestRun c 0 cs = 0) : c ∉ cs := by
  induction cs with
  | nil => exact List.not_mem_nil
  | cons d cs ih =>
    rintro (_ | ⟨_, hmem⟩)
    · have := leading_le_longestRun (c := c) 0 (c :: cs)
      simp [leading] at this
      omega
    · exact ih (Nat.le_zero.mp (Nat.le_trans (longestRun_tail_le d cs) (Nat.le_of_eq h))) hmem

/-- A line may end within a text of several lines where no carriage return stands alone. -/
theorem literalLines_plain (hclosing : closing? '\'' (c :: cs) = none) (hplain : IsPlainIn true c)
    (h : Reads literalLines cs s last) : Reads literalLines (c :: cs) (c :: s) last := by
  obtain ⟨hlength, h⟩ := h
  refine ⟨Nat.lt_succ_of_lt hlength, ?_⟩
  rw [literalLines, hclosing]
  dsimp only
  have : isPlain c = true ∨ c = '\n' := hplain.imp_right And.right
  rw [if_pos (by simpa using .inl this), h]
  rfl

theorem literalLines_closing (h : Reads (closing? '\'') cs s last) :
    Reads literalLines cs s last := by
  obtain ⟨hlength, h⟩ := h
  refine ⟨hlength, ?_⟩
  rw [literalLines.eq_def, h]

/-- A text without longer runs of quotes is read up to the three that close it. -/
theorem literalLines_append (hcs : ∀ c ∈ cs, IsPlainIn true c) (hrun : longestRun '\'' 0 cs ≤ 2)
    (hlast : last.head? ≠ some '\'') :
    Reads literalLines (cs ++ '\'' :: '\'' :: '\'' :: last) cs last := by
  induction cs with
  | nil => exact literalLines_closing (closing?_of_forall (by simp [leading]) (by simp) hlast)
  | cons c cs ih =>
    have hleading : leading '\'' (c :: cs) ≤ 2 := by
      have := leading_le_longestRun (c := '\'') 0 (c :: cs)
      omega
    by_cases hall : ∀ d ∈ c :: cs, d = '\''
    · exact literalLines_closing (closing?_of_forall hleading hall hlast)
    · obtain ⟨hplain, hcs⟩ := List.forall_mem_cons.mp hcs
      push Not at hall
      exact literalLines_plain (closing?_eq_none hleading hall) hplain
        (ih hcs (Nat.le_trans (longestRun_tail_le c cs) hrun))

theorem basicLines_closing (h : Reads (closing? '"') cs s last) : Reads basicLines cs s last := by
  obtain ⟨hlength, h⟩ := h
  refine ⟨hlength, ?_⟩
  rw [basicLines.eq_def, h]

theorem basicLines_plain (hclosing : closing? '"' (c :: cs) = none) (hslash : c ≠ '\\')
    (hplain : IsPlainIn true c) (h : Reads basicLines cs s last) :
    Reads basicLines (c :: cs) (c :: s) last := by
  obtain ⟨hlength, h⟩ := h
  refine ⟨Nat.lt_succ_of_lt hlength, ?_⟩
  have hplain : isPlain c = true ∨ c = '\n' := hplain.imp_right And.right
  rw [basicLines, hclosing]
  · dsimp only
    rw [if_pos (by simpa using .inl hplain), h]
    rfl
  · exact hslash

theorem lineEnd?_cons (hline : c ≠ '\n') (hreturn : c ≠ '\r') (cs : List Char) :
    lineEnd? (c :: cs) = none := by
  rw [lineEnd?.eq_3]
  · rintro rest ⟨⟩
    exact hline rfl
  · rintro rest ⟨⟩
    exact hreturn rfl

theorem continuation?_cons (hblank : isBlank d = false) (hline : d ≠ '\n') (hreturn : d ≠ '\r')
    (ds : List Char) : continuation? (d :: ds) = none := by
  have hdrop : (d :: ds).dropWhile isBlank = d :: ds :=
    List.dropWhile_cons_of_neg (by simp [hblank])
  have hend : lineEnd? ((d :: ds).dropWhile isBlank) = none := by
    rw [hdrop]
    exact lineEnd?_cons hline hreturn ds
  rw [continuation?, hend]
  rfl

theorem basicLines_escaped (hblank : isBlank d = false) (hline : d ≠ '\n') (hreturn : d ≠ '\r')
    (hescape : Reads escape (d :: ds) c cs) (h : Reads basicLines cs s last) :
    Reads basicLines ('\\' :: d :: ds) (c :: s) last := by
  obtain ⟨hlength, hescape⟩ := hescape
  obtain ⟨hlength', h⟩ := h
  refine ⟨by simp at hlength ⊢; omega, ?_⟩
  have hclosing : closing? '"' ('\\' :: d :: ds) = none :=
    closing?_eq_none_of_ne fun rest heq => by cases heq
  rw [basicLines, hclosing, continuation?_cons hblank hline hreturn]
  dsimp only
  rw [hescape]
  dsimp only
  rw [h]
  rfl

/-- Of quotes that are written in a row, each third one is escaped. -/
theorem leading_escapeAll {n : Nat} (hn : n ≤ 2) (cs : List Char) :
    n + leading '"' (escapeAll true n cs) ≤ 2 := by
  induction cs generalizing n with
  | nil => exact hn
  | cons c cs ih =>
    rw [escapeAll]
    split
    · split
      · rename_i hfew
        have hfew : n < 2 := by simpa using hfew
        have := ih (Nat.succ_le_of_lt hfew)
        simp [leading] at this ⊢
        omega
      · exact hn
    · rename_i hc
      rcases escapeOf_cases true c with ⟨hself, -⟩ | ⟨d, ds, hescape, -⟩
      · rw [hself]
        simpa [leading, hc] using hn
      · rw [hescape]
        exact hn

/-- What is written as quotes alone is the quotes themselves. -/
theorem eq_of_escapeAll {n : Nat} {cs : List Char} (h : ∀ c ∈ escapeAll true n cs, c = '"') :
    escapeAll true n cs = cs := by
  induction cs generalizing n with
  | nil => rfl
  | cons c cs ih =>
    rw [escapeAll] at h ⊢
    split at h
    · split at h
      · rename_i hc hfew
        rw [if_pos hc, if_pos hfew, ih (List.forall_mem_cons.mp h).2, hc]
      · exact absurd (h '\\' (by simp)) (by decide)
    · rename_i hc
      rcases escapeOf_cases true c with ⟨hself, -⟩ | ⟨d, ds, hescape, -⟩
      · exact absurd (h c (by simp [hself])) hc
      · exact absurd (h '\\' (by simp [hescape])) (by decide)

theorem basicLines_escapeAll {n : Nat} (hn : n ≤ 2) (cs : List Char)
    (hlast : last.head? ≠ some '"') :
    Reads basicLines (escapeAll true n cs ++ '"' :: '"' :: '"' :: last) cs last := by
  induction cs generalizing n with
  | nil =>
    exact basicLines_closing
      (closing?_of_forall (by simp [escapeAll, leading]) (by simp [escapeAll]) hlast)
  | cons c cs ih =>
    have hleading : leading '"' (escapeAll true n (c :: cs)) ≤ 2 := by
      have := leading_escapeAll hn (c :: cs)
      omega
    by_cases hall : ∀ d ∈ escapeAll true n (c :: cs), d = '"'
    · have hread := basicLines_closing (closing?_of_forall hleading hall hlast)
      rwa [eq_of_escapeAll hall] at hread ⊢
    · push Not at hall
      have hclosing : closing? '"' (escapeAll true n (c :: cs) ++ '"' :: '"' :: '"' :: last) = none :=
        closing?_eq_none hleading hall
      rw [escapeAll] at hclosing ⊢
      split
      · rename_i hc
        subst hc
        split
        · rename_i hfew
          have hfew' : n < 2 := by simpa using hfew
          rw [if_pos rfl, if_pos hfew] at hclosing
          exact basicLines_plain hclosing (by decide) (.inl rfl) (ih hfew')
        · exact basicLines_escaped rfl (by decide) (by decide) (escape_letter rfl rfl) (ih (by omega))
      · rename_i hc
        rw [if_neg hc] at hclosing
        rcases escapeOf_cases true c with ⟨hself, hslash, -, hplain⟩ |
          ⟨d, ds, hescape, hblank, hline, hreturn, hread⟩
        · rw [hself] at hclosing ⊢
          exact basicLines_plain hclosing hslash hplain (ih (by omega))
        · rw [hescape, List.append_assoc]
          exact basicLines_escaped hblank hline hreturn (hread _) (ih (by omega))

/-! ### All forms -/

variable {one lines : (cs : List Char) → Option (List Char × Rest cs)}

/-- A text between single quotes of a kind, unless two of them come first. -/
theorem between_one (h : Reads one ds s last) (hds : ∀ rest, ds ≠ quote :: quote :: rest) :
    Reads (between one lines quote) (quote :: ds) (String.ofList s) last := by
  obtain ⟨hlength, h⟩ := h
  refine ⟨Nat.lt_succ_of_lt hlength, ?_⟩
  rcases ds with _ | ⟨b, _ | ⟨e, ds⟩⟩
  · simp at hlength
  · rw [between, if_pos rfl, h]
    · rfl
    · simp
  · rw [between, if_neg, if_pos rfl, h]
    · rfl
    · rintro ⟨-, rfl, rfl⟩
      exact hds ds rfl

theorem between_lines (h : Reads lines (dropLineEnd ds).1 s last) :
    Reads (between one lines quote) (quote :: quote :: quote :: ds) (String.ofList s) last := by
  obtain ⟨hlength, h⟩ := h
  have := (dropLineEnd ds).2
  refine ⟨by simp only [List.length_cons]; omega, ?_⟩
  rw [between, if_pos ⟨rfl, rfl, rfl⟩, h]
  rfl

theorem between_eq_none (h : c ≠ quote) (cs : List Char) :
    between one lines quote (c :: cs) = none := by
  rcases cs with _ | ⟨b, _ | ⟨e, cs⟩⟩ <;> simp [between, h]

/-- What the plainer forms cannot hold. -/
theorem form_spec (cs : List Char) :
    (form cs = .literal → ∀ c ∈ cs, needsCode c = false ∧ c ≠ '\n' ∧ c ≠ '\'') ∧
      (form cs = .literalLines →
        (∀ c ∈ cs, needsCode c = false) ∧ longestRun '\'' 0 cs ≤ 2) := by
  have hcodes : cs.any needsCode = false → ∀ c ∈ cs, needsCode c = false := by simp
  unfold form
  dsimp only
  split_ifs with hbasic hliteral hbasicLines hliteralLines hlines
  · simp
  · simp only [Bool.and_eq_true, Bool.not_eq_true', decide_eq_true_eq, List.contains_eq_mem,
      decide_eq_false_iff_not] at hliteral
    obtain ⟨⟨hcode, hrun⟩, hline⟩ := hliteral
    refine ⟨fun _ c hc => ⟨hcodes hcode c hc, ?_, ?_⟩, nofun⟩
    · rintro rfl
      exact hline hc
    · rintro rfl
      exact not_mem_of_longestRun hrun hc
  · simp
  · simp only [Bool.and_eq_true, Bool.not_eq_true', decide_eq_true_eq] at hliteralLines
    exact ⟨nofun, fun _ => ⟨hcodes hliteralLines.1, hliteralLines.2⟩⟩
  · simp
  · simp

/-- The line's end that is written in front is dropped, and nothing else is. -/
theorem dropLineEnd_append (hline : '\n' ∉ cs → ∀ c ∈ ds.head?, c ≠ '\n' ∧ c ≠ '\r') :
    (dropLineEnd ((if cs.contains '\n' then ['\n'] else []) ++ ds)).1 = ds := by
  by_cases hmem : '\n' ∈ cs
  · rw [if_pos (by simpa using hmem)]
    rfl
  · rw [if_neg (by simpa using hmem), List.nil_append]
    cases ds with
    | nil => rfl
    | cons c ds =>
      obtain ⟨hne, hreturn⟩ := hline hmem c rfl
      rw [dropLineEnd, lineEnd?_cons hne hreturn]
      rfl

/-- A text with escapes begins with no line's end unless it is in the text. -/
theorem head?_escapeAll {overLines : Bool} (hc : (escapeAll overLines 0 cs).head? = some c) :
    (overLines = false → c ≠ '"') ∧ ('\n' ∉ cs → c ≠ '\n' ∧ c ≠ '\r') := by
  cases cs with
  | nil => cases hc
  | cons a cs =>
    rw [escapeAll] at hc
    split at hc
    · split at hc
      · cases hc
        exact ⟨fun h => by simp_all, fun _ => by decide⟩
      · cases hc
        exact ⟨fun _ => by decide, fun _ => by decide⟩
    · rename_i ha
      rcases escapeOf_cases overLines a with ⟨hself, -, hreturn, -⟩ | ⟨d, ds, hescape, -⟩
      · rw [hself] at hc
        cases hc
        exact ⟨fun _ => ha, fun hline => ⟨fun heq => hline (by simp [heq]), hreturn⟩⟩
      · rw [hescape] at hc
        cases hc
        exact ⟨fun _ => by decide, fun _ => by decide⟩

theorem string_of_double {a : String} (h : Reads (between basic basicLines '"') cs a last) :
    Reads string cs a last := by
  obtain ⟨hlength, h⟩ := h
  exact ⟨hlength, by rw [string, h]⟩

theorem string_of_single {a : String}
    (h : Reads (between literal literalLines '\'') ('\'' :: cs) a last) :
    Reads string ('\'' :: cs) a last := by
  obtain ⟨hlength, h⟩ := h
  refine ⟨hlength, ?_⟩
  rw [string, between_eq_none (by decide), h]

/-- The line's end that is written where a text runs over several lines. -/
def lead (cs : List Char) : List Char :=
  if cs.contains '\n' then ['\n'] else []

theorem string_basic (cs : List Char) (hlast : last.head? ≠ some '"') :
    Reads string ('"' :: (escapeAll false 0 cs ++ '"' :: last)) (String.ofList cs) last := by
  refine string_of_double (between_one (basic_escapeAll cs last) fun rest heq => ?_)
  cases hhead : escapeAll false 0 cs with
  | nil =>
    rw [hhead] at heq
    exact hlast (by rw [(List.cons.inj heq).2]; rfl)
  | cons c ds =>
    rw [hhead] at heq
    exact (head?_escapeAll (congrArg List.head? hhead)).1 rfl (List.cons.inj heq).1

theorem string_literal (hform : form cs = .literal) (hlast : last.head? ≠ some '\'') :
    Reads string ('\'' :: (cs ++ '\'' :: last)) (String.ofList cs) last := by
  have hcs := (form_spec cs).1 hform
  have hplain : ∀ c ∈ cs, isPlain c = true ∧ c ≠ '\'' := fun c hc =>
    ⟨isPlain_of_needsCode (hcs c hc).1 (hcs c hc).2.1, (hcs c hc).2.2⟩
  refine string_of_single (between_one (literal_append hplain last) fun rest heq => ?_)
  cases cs with
  | nil => exact hlast (by rw [(List.cons.inj heq).2]; rfl)
  | cons c cs => exact (hplain c (List.mem_cons_self ..)).2 (List.cons.inj heq).1

theorem string_basicLines (cs : List Char) (hlast : last.head? ≠ some '"') :
    Reads string
      ('"' :: '"' :: '"' :: (lead cs ++ (escapeAll true 0 cs ++ '"' :: '"' :: '"' :: last)))
      (String.ofList cs) last := by
  refine string_of_double (between_lines ?_)
  rw [lead, dropLineEnd_append]
  · exact basicLines_escapeAll (by decide) cs hlast
  · intro hline c hc
    cases hhead : escapeAll true 0 cs with
    | nil =>
      rw [hhead] at hc
      cases hc
      exact ⟨by decide, by decide⟩
    | cons d ds =>
      rw [hhead] at hc
      cases hc
      exact (head?_escapeAll (congrArg List.head? hhead)).2 hline

theorem string_literalLines (hform : form cs = .literalLines) (hlast : last.head? ≠ some '\'') :
    Reads string ('\'' :: '\'' :: '\'' :: (lead cs ++ (cs ++ '\'' :: '\'' :: '\'' :: last)))
      (String.ofList cs) last := by
  obtain ⟨hcodes, hrun⟩ := (form_spec cs).2 hform
  have hplain : ∀ c ∈ cs, IsPlainIn true c := fun c hc => by
    by_cases hline : c = '\n'
    · exact .inr ⟨rfl, hline⟩
    · exact .inl (isPlain_of_needsCode (hcodes c hc) hline)
  refine string_of_single (between_lines ?_)
  rw [lead, dropLineEnd_append]
  · exact literalLines_append hplain hrun hlast
  · intro hline c hc
    cases cs with
    | nil =>
      cases hc
      exact ⟨by decide, by decide⟩
    | cons d cs =>
      cases hc
      refine ⟨fun heq => hline (by simp [heq]), ?_⟩
      rintro rfl
      exact absurd (hcodes '\r' (List.mem_cons_self ..)) (by decide)

/-- **A text is read as it has been written**, in whichever form, where no quote follows. -/
theorem string_quoted (cs : List Char) (hlast : ∀ c ∈ last.head?, c ≠ '"' ∧ c ≠ '\'') :
    Reads string (quoted cs ++ last) (String.ofList cs) last := by
  have hdouble : last.head? ≠ some '"' := fun h => (hlast _ h).1 rfl
  have hsingle : last.head? ≠ some '\'' := fun h => (hlast _ h).2 rfl
  unfold quoted
  dsimp only
  rw [← lead]
  split <;> simp only [List.append_assoc, List.cons_append, List.nil_append]
  · exact string_basic cs hdouble
  · exact string_literal ‹_› hsingle
  · exact string_basicLines cs hdouble
  · exact string_literalLines ‹_› hsingle

end ContainerCommand.Toml
