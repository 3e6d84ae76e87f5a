/-! Placeholders in templates.

A placeholder is a percent sign followed by one of three letters. `placeholders`
lists those of a text in order and `split?` cuts a text at the first; each of the two
finds something exactly when the other does (`split?_eq_none_iff`), and the pieces
put together are the text again (`eq_of_split?`), around the first placeholder
(`head?_placeholders`). -/
namespace ContainerCommand.Template

/-- How a placeholder has a value written. -/
inductive Conversion where
  /-- As the value's own text. -/
  | text
  /-- As an integer. -/
  | integer
  /-- With six places. -/
  | places
deriving DecidableEq

namespace Conversion

def letter : Conversion → Char
  | .text => 's'
  | .integer => 'd'
  | .places => 'f'

def ofLetter? (c : Char) : Option Conversion :=
  if c = 's' then some .text else if c = 'd' then some .integer
  else if c = 'f' then some .places else none

/-- The placeholder that asks for the conversion. -/
def placeholder (k : Conversion) : List Char := ['%', k.letter]

theorem letter_of_ofLetter? {c : Char} {k : Conversion} (h : ofLetter? c = some k) :
    k.letter = c := by
  unfold ofLetter? at h
  split at h
  · cases h; simp_all [letter]
  · split at h
    · cases h; simp_all [letter]
    · split at h <;> cases h; simp_all [letter]

end Conversion

/-- The placeholders of a text in order. -/
def placeholders : List Char → List Conversion
  | [] => []
  | [_] => []
  | c :: d :: rest =>
    match if c = '%' then Conversion.ofLetter? d else none with
    | some k => k :: placeholders rest
    | none => placeholders (d :: rest)

/-- The text cut at its first placeholder. -/
def split? : List Char → Option (List Char × Conversion × List Char)
  | [] => none
  | [_] => none
  | c :: d :: rest =>
    match if c = '%' then Conversion.ofLetter? d else none with
    | some k => some ([], k, rest)
    | none => (split? (d :: rest)).map fun (pre, k, post) => (c :: pre, k, post)

/-- A text is the two pieces with the placeholder between them. -/
theorem eq_of_split? {cs pre post : List Char} {k : Conversion}
    (h : split? cs = some (pre, k, post)) : cs = pre ++ k.placeholder ++ post := by
  fun_induction split? cs generalizing pre k post with
  | case1 => cases h
  | case2 => cases h
  | case3 c d rest k' hk =>
    cases h
    split at hk
    · subst c
      simp [Conversion.placeholder, Conversion.letter_of_ofLetter? hk]
    · cases hk
  | case4 c d rest hk ih =>
    obtain ⟨⟨pre', k', post'⟩, hs, heq⟩ := Option.map_eq_some_iff.mp h
    cases heq
    simp [ih hs]

/-- A text is cut nowhere exactly when it has no placeholder. -/
theorem split?_eq_none_iff (cs : List Char) : split? cs = none ↔ placeholders cs = [] := by
  fun_induction split? cs with
  | case1 => simp [placeholders]
  | case2 => simp [placeholders]
  | case3 c d rest k hk => simp [placeholders, hk]
  | case4 c d rest hk ih => simp [placeholders, hk, ih]

/-- The placeholder at the cut is the first of the text. -/
theorem head?_placeholders (cs : List Char) :
    (placeholders cs).head? = (split? cs).map fun cut => cut.2.1 := by
  fun_induction split? cs with
  | case1 => simp [placeholders]
  | case2 => simp [placeholders]
  | case3 c d rest k hk => simp [placeholders, hk]
  | case4 c d rest hk ih => simp [placeholders, hk, ih, Function.comp_def]

end ContainerCommand.Template
