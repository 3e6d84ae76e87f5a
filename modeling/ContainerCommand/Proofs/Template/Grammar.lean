import ContainerCommand.Proofs.Template.Placeholder

/-! The texts that write a template.

`Reading` says what the parts of a template's text are: blanks around it, three dots at its end if it
is repeated, and words between gaps. Every text has exactly one reading (`reading_iff`), and whether it
writes a template, and which one, is told by the reading's words (`parse_eq_ok_iff`). The main
statement is `parse_grammar`. -/
namespace ContainerCommand.Template

/-- The dots at the end of a template that is repeated. -/
def dots : List Char := ['.', '.', '.']

theorem isWord_dots : Text.IsWord dots where
  ne_nil := List.cons_ne_nil _ _
  solid c hc := by
    obtain rfl : c = '.' := by simpa [dots] using hc
    decide

/-- The first word starts with the mark of a redirection. -/
def Redirects (words : List (List Char)) : Prop :=
  ∃ word, words.head? = some word ∧ word.head? = some '>'

/-- The parts of a template's text: its body, which is the text without the blanks around it and
without three dots at its end, whether the dots are there, and the words of the body. -/
structure Reading (raw : String) (body : List Char) (isRepeated : Bool)
    (words : List (List Char)) : Prop where
  text : ∃ text, Text.Trims raw.toList text ∧
    (isRepeated = true ∧ text = body ++ dots ∨
      isRepeated = false ∧ text = body ∧ ¬ dots <:+ text)
  words : Text.Runs body words

theorem splitRepeat_eq_iff {text body : List Char} {isRepeated : Bool} :
    splitRepeat text = (body, isRepeated) ↔
      isRepeated = true ∧ text = body ++ dots ∨
        isRepeated = false ∧ text = body ∧ ¬ dots <:+ text := by
  have hsuffix : ∀ cs : List Char, dots <:+ cs ↔ ∃ rest, cs.reverse = '.' :: '.' :: '.' :: rest :=
    fun cs => by
      rw [← List.reverse_prefix, show dots.reverse = ['.', '.', '.'] from rfl]
      exact ⟨fun ⟨rest, h⟩ => ⟨rest, h.symm⟩, fun ⟨rest, h⟩ => ⟨rest, h.symm⟩⟩
  unfold splitRepeat
  split
  · rename_i rest h
    have htext : text = rest.reverse ++ dots := by
      rw [← List.reverse_reverse text, h]
      simp [dots]
    constructor
    · rintro ⟨⟩
      exact .inl ⟨rfl, htext⟩
    · rintro (⟨rfl, hbody⟩ | ⟨_, _, hnone⟩)
      · rw [htext, List.append_cancel_right_eq] at hbody
        rw [hbody]
      · exact absurd ((hsuffix text).mpr ⟨rest, h⟩) hnone
  · rename_i hnone
    have hdots : ¬ dots <:+ text := fun h => by
      obtain ⟨rest, hrest⟩ := (hsuffix text).mp h
      exact hnone rest hrest
    constructor
    · rintro ⟨⟩
      exact .inr ⟨rfl, rfl, hdots⟩
    · rintro (⟨_, hbody⟩ | ⟨rfl, rfl, _⟩)
      · exact absurd ⟨body, hbody.symm⟩ hdots
      · rfl

variable {raw : String} {body : List Char} {isRepeated : Bool} {words : List (List Char)}

theorem reading_iff :
    Reading raw body isRepeated words ↔
      splitRepeat (Text.trim raw.toList) = (body, isRepeated) ∧ Text.words body = words := by
  constructor
  · rintro ⟨⟨text, htext, hdots⟩, hwords⟩
    rw [htext.trim_eq]
    exact ⟨splitRepeat_eq_iff.mpr hdots, Text.words_of_runs hwords⟩
  · rintro ⟨hbody, hwords⟩
    exact ⟨⟨_, Text.trims_trim _, splitRepeat_eq_iff.mp hbody⟩, Text.words_eq_iff.mp hwords⟩

theorem exists_reading (raw : String) : ∃ body isRepeated words, Reading raw body isRepeated words :=
  ⟨_, _, _, reading_iff.mpr ⟨rfl, rfl⟩⟩

namespace Argument

theorem startsRedirect_iff : startsRedirect words = true ↔ Redirects words := by
  simp [startsRedirect, Redirects, Option.bind_eq_some_iff]

/-- **A text writes a template exactly if it has a word and no two placeholders, and if it is repeated
one placeholder and no redirection.** -/
theorem parse_eq_ok_iff {t : Argument} (h : Reading raw body isRepeated words) :
    parse raw = .ok t ↔
      (words ≠ [] ∧ (occurrences body).length ≤ 1 ∧
        (isRepeated = true → (occurrences body).length = 1 ∧ ¬ Redirects words)) ∧
      t = { raw, body := Body.ofWords words, isRepeated } := by
  obtain ⟨hbody, hwords⟩ := reading_iff.mp h
  rw [length_occurrences, placeholders_eq_flatMap h.words, ← startsRedirect_iff]
  unfold parse
  rw [hbody]
  simp only [hwords]
  split_ifs with hempty hmany hredirect hmissing
  · exact iff_of_false nofun fun ⟨⟨hne, _, _⟩, _⟩ => hne (List.isEmpty_iff.mp hempty)
  · exact iff_of_false nofun fun ⟨⟨_, hone, _⟩, _⟩ => absurd hone (Nat.not_le.mpr hmany)
  · rw [Bool.and_eq_true] at hredirect
    exact iff_of_false nofun fun ⟨⟨_, _, hrepeated⟩, _⟩ => (hrepeated hredirect.2).2 hredirect.1
  · rw [Bool.and_eq_true, List.isEmpty_iff] at hmissing
    refine iff_of_false nofun fun ⟨⟨_, _, hrepeated⟩, _⟩ => ?_
    have hone := (hrepeated hmissing.1).1
    rw [hmissing.2] at hone
    cases hone
  · rw [Except.ok.injEq, eq_comm]
    refine ⟨fun ht => ⟨⟨by simpa using hempty, Nat.not_lt.mp hmany, fun hrepeated => ⟨?_, ?_⟩⟩, ht⟩,
      And.right⟩
    · have hfound : words.flatMap placeholders ≠ [] := fun hnone => hmissing (by
        rw [hrepeated, hnone]
        rfl)
      have hpos := List.length_pos_iff.mpr hfound
      omega
    · exact fun hstarts => hredirect (by rw [hstarts, hrepeated]; rfl)

/-! ### Templates in their shortest spelling -/

/-- The words of a template with single spaces between them, and the dots if it is repeated. -/
def spelling (t : Argument) : String :=
  " ".intercalate t.words ++ if t.isRepeated then "..." else ""

theorem toList_spelling {t : Argument} (hwords : t.words.map String.toList = words) :
    t.spelling.toList = Text.join words ++ if t.isRepeated then dots else [] := by
  rw [spelling, String.toList_append, String.toList_intercalate, hwords]
  cases t.isRepeated <;> rfl

/-- In the shortest spelling the words are read as before, and the dots where they were. -/
theorem reading_spelling {t : Argument} (h : Reading raw body isRepeated words) (hne : words ≠ [])
    (hwords : t.words.map String.toList = words) (hrepeated : t.isRepeated = isRepeated) :
    Reading t.spelling (Text.join words) isRepeated words := by
  have hsolid : ∀ word ∈ words, Text.IsWord word := h.words.isWord
  have hruns : Text.Runs (Text.join words) words := Text.runs_join hsolid
  have hlast : ∀ c, (Text.join words).getLast? = some c → Text.isBlank c = false :=
    fun _ => Text.getLast?_join hsolid
  obtain ⟨first, hhead, hfirst⟩ := Text.exists_head?_join hsolid hne
  have hspelling := toList_spelling hwords
  rw [hrepeated] at hspelling
  obtain ⟨text, htext, ⟨rfl, _⟩ | ⟨rfl, rfl, hdots⟩⟩ := h.text
  · refine ⟨⟨_, ?_, .inl ⟨rfl, rfl⟩⟩, hruns⟩
    rw [hspelling]
    refine Text.trims_self (fun c hc => ?_) fun c hc => ?_
    · rw [List.head?_append, hhead] at hc
      cases hc
      exact hfirst
    · rw [if_pos rfl, List.getLast?_append_of_ne_nil _ isWord_dots.ne_nil] at hc
      exact isWord_dots.solid c (List.mem_of_getLast? hc)
  · have hends := (hruns.suffix_iff hne hlast isWord_dots).trans
      (h.words.suffix_iff hne htext.last isWord_dots).symm
    refine ⟨⟨_, ?_, .inr ⟨rfl, rfl, mt hends.mp hdots⟩⟩, hruns⟩
    rw [hspelling, if_neg Bool.false_ne_true, List.append_nil]
    refine Text.trims_self (fun c hc => ?_) hlast
    cases hhead.symm.trans hc
    exact hfirst

/-! ### The main statement -/

theorem map_toList_words (words : List (List Char)) :
    (Body.ofWords words).words.map String.toList = words := by
  rw [Body.words_ofWords, List.map_map]
  simp [Function.comp_def]

/-- **The grammar of templates.** Read a text without the blanks around it and without the three dots
that have it repeated. It writes a template exactly if something but blanks is left, with at most one
placeholder in it, and if it is repeated with exactly one and with a first word that is no
redirection. The template then has the words of the text, in order, none of them empty or with a blank
in it; it has a placeholder if the text does, and redirects if the first word starts with the mark.
Its words with single spaces between them, and with the dots if it is repeated, write the same template
again. -/
theorem parse_grammar (raw : String) :
    (∃ body isRepeated words, Reading raw body isRepeated words) ∧
      ∀ body isRepeated words, Reading raw body isRepeated words →
        ((∃ t, parse raw = .ok t) ↔
          (∃ c ∈ body, Text.isBlank c = false) ∧ (occurrences body).length ≤ 1 ∧
            (isRepeated = true → (occurrences body).length = 1 ∧ ¬ Redirects words)) ∧
        ∀ t, parse raw = .ok t →
          t.raw = raw ∧ t.isRepeated = isRepeated ∧ t.words.map String.toList = words ∧
            words ≠ [] ∧ (∀ word ∈ words, Text.IsWord word) ∧
            (t.hasPlaceholder = true ↔ occurrences body ≠ []) ∧
            (t.isRedirect = true ↔ Redirects words) ∧
            parse t.spelling = .ok { t with raw := t.spelling } := by
  refine ⟨exists_reading raw, fun body isRepeated words h => ⟨?_, fun t ht => ?_⟩⟩
  · rw [← h.words.ne_nil_iff]
    simp only [parse_eq_ok_iff h]
    exact ⟨fun ⟨_, hreads, _⟩ => hreads, fun hreads => ⟨_, hreads, rfl⟩⟩
  · obtain ⟨⟨hne, hreads⟩, rfl⟩ := (parse_eq_ok_iff h).mp ht
    have hwords := map_toList_words words
    have hspelled := reading_spelling (t := ⟨raw, Body.ofWords words, isRepeated⟩) h hne hwords rfl
    refine ⟨rfl, rfl, hwords, hne, h.words.isWord, ?_, ?_, ?_⟩
    · rw [hasPlaceholder, Body.conversion?_ofWords, ← placeholders_eq_flatMap h.words, ne_eq,
        occurrences_eq_nil_iff]
      cases placeholders body <;> simp
    · rw [isRedirect, Argument.words, hwords, startsRedirect_iff]
    · refine (parse_eq_ok_iff hspelled).mpr ⟨⟨hne, ?_⟩, rfl⟩
      rw [length_occurrences, placeholders_eq_flatMap h.words] at hreads
      rw [length_occurrences, placeholders_eq_flatMap hspelled.words]
      exact hreads

/-- A fourth dot belongs to the word, and a percent sign does not hide the next one. -/
example : (parse " -x\t%%s.... ").toOption.map Argument.words = some ["-x", "%%s."] := by
  decide +kernel

end Argument

end ContainerCommand.Template
