/-! White space, trimming and words.

Templates are trimmed and cut into words at white space, and parameter names are
refused when nothing else is in them. A word is a longest run of characters that
are not blank: `words` loses only blanks (`flatten_words`), no word is empty
(`ne_nil_of_mem_words`), and none holds a blank (`isBlank_of_mem_words`). -/
namespace ContainerCommand.Text

/-- The twenty-five code points with the Unicode property `White_Space`. -/
def isBlank (c : Char) : Bool :=
  let n := c.toNat
  (9 ≤ n && n ≤ 13) || n == 0x20 || n == 0x85 || n == 0xA0 || n == 0x1680 ||
    (0x2000 ≤ n && n ≤ 0x200A) || n == 0x2028 || n == 0x2029 || n == 0x202F || n == 0x205F ||
    n == 0x3000

/-- A text without the blanks at its end. -/
def trimEnd (cs : List Char) : List Char :=
  (cs.reverse.dropWhile isBlank).reverse

/-- A text without the blanks at either end. -/
def trim (cs : List Char) : List Char :=
  trimEnd (cs.dropWhile isBlank)

/-- Puts a character in front of the first word, or makes it a word of its own. -/
def pushFirst (c : Char) (apart : Bool) : List (List Char) → List (List Char)
  | [] => [[c]]
  | word :: others => if apart then [c] :: word :: others else (c :: word) :: others

/-- The longest runs of characters that are not blank, in order. -/
def words : List Char → List (List Char)
  | [] => []
  | c :: rest =>
    if isBlank c then words rest else pushFirst c (rest.head?.any isBlank) (words rest)

theorem flatten_pushFirst (c : Char) (apart : Bool) (ws : List (List Char)) :
    (pushFirst c apart ws).flatten = c :: ws.flatten := by
  cases ws <;> cases apart <;> simp [pushFirst]

/-- Cutting into words loses only the blanks. -/
theorem flatten_words (cs : List Char) : (words cs).flatten = cs.filter (!isBlank ·) := by
  induction cs with
  | nil => rfl
  | cons c rest ih =>
    by_cases hc : isBlank c
    · simp [words, hc, ih]
    · simp [words, hc, flatten_pushFirst, ih]

theorem ne_nil_of_mem_pushFirst {c : Char} {apart : Bool} {ws : List (List Char)}
    {word : List Char} (hws : ∀ w ∈ ws, w ≠ []) (h : word ∈ pushFirst c apart ws) : word ≠ [] := by
  cases ws with
  | nil =>
    simp only [pushFirst, List.mem_singleton] at h
    simp [h]
  | cons w others =>
    have hothers : ∀ v ∈ others, v ≠ [] := fun v hv => hws v (List.mem_cons_of_mem _ hv)
    have hw : w ≠ [] := hws w List.mem_cons_self
    cases apart <;> simp only [pushFirst, Bool.false_eq_true, if_true, if_false,
      List.mem_cons] at h
    · rcases h with h | h
      · simp [h]
      · exact hothers word h
    · rcases h with h | h | h
      · simp [h]
      · exact h ▸ hw
      · exact hothers word h

/-- No word is empty. -/
theorem ne_nil_of_mem_words {cs word : List Char} (h : word ∈ words cs) : word ≠ [] := by
  induction cs generalizing word with
  | nil => simp [words] at h
  | cons c rest ih =>
    by_cases hc : isBlank c
    · exact ih (by simpa [words, hc] using h)
    · exact ne_nil_of_mem_pushFirst (fun _ hw => ih hw) (by simpa [words, hc] using h)

/-- No word holds a blank. -/
theorem isBlank_of_mem_words {cs word : List Char} (h : word ∈ words cs) {c : Char}
    (hc : c ∈ word) : isBlank c = false := by
  have hmem : c ∈ (words cs).flatten := List.mem_flatten.mpr ⟨word, h, hc⟩
  rw [flatten_words, List.mem_filter] at hmem
  simpa using hmem.2

/-- A string without the blanks at either end. -/
def trimmed (s : String) : String :=
  String.ofList (trim s.toList)

/-- Whether a string holds nothing but blanks. -/
def isAllBlank (s : String) : Bool :=
  s.toList.all isBlank

end ContainerCommand.Text
