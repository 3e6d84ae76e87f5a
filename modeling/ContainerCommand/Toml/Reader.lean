import ContainerCommand.Toml.Moment
import ContainerCommand.Toml.Numeral
import ContainerCommand.Toml.Text
import ContainerCommand.Toml.Tree

/-! Reading TOML.

A document is read line by line; each line assigns a value or opens a section, and the
sections are put into the tree afterwards. Lists and tables within a line nest at most
`depthLimit` deep. Both may run over several lines and end in a comma; inside a table a
line may end on either side of an equals sign too. -/
namespace ContainerCommand.Toml
open Text Number

/-! ### Gaps -/

/-- A text without the comment at its front. -/
def skipComment : (cs : List Char) → Suffix cs
  | '#' :: rest => (Suffix.dropWhile isPlain rest).behind
  | cs => .all cs

/-- A text without the blanks and the comment at its front. -/
def skipRemark (cs : List Char) : Suffix cs :=
  (skipComment (cs.dropWhile isBlank)).widen (length_dropWhile_le isBlank cs)

/-- A text without the blanks, comments and ends of lines at its front. -/
def skipGap (cs : List Char) : Suffix cs :=
  match lineEnd? (skipRemark cs).1 with
  | none => skipRemark cs
  | some rest =>
    have hlt : rest.1.length < cs.length := Nat.lt_of_lt_of_le rest.2 (skipRemark cs).2
    ⟨(skipGap rest.1).1, Nat.le_trans (skipGap rest.1).2 (Nat.le_of_lt hlt)⟩
termination_by cs.length

/-! ### Values -/

def isScalarChar (c : Char) : Bool :=
  c.isAlphanum || c == '_' || c == '-' || c == '+' || c == '.' || c == ':'

/-- The value that a run of characters writes. -/
def scalar? (token : List Char) : Option Document :=
  if token = "true".toList then some (.bool true)
  else if token = "false".toList then some (.bool false)
  else
    match Moment.read? token with
    | some m => some (.moment m.text)
    | none => number? token

/-- A value without quotes or brackets. A blank may part a date from the time behind it. -/
def scalar : Reader Document := fun cs => do
  let (token, rest) ← Reader.run isScalarChar cs
  match (Date.read? token).any (·.2.isEmpty), h : rest.1 with
  | true, ' ' :: d :: tail =>
    if d.isDigit then
      let (time, last) ← Reader.run isScalarChar (d :: tail)
      let m ← Moment.read? (token ++ ' ' :: time)
      some (.moment m.text, ⟨last.1, by
        have := rest.2
        have := last.2
        rw [h] at *
        simp only [List.length_cons] at *
        omega⟩)
    else return (← scalar? token, rest)
  | _, _ => return (← scalar? token, rest)

/-- A value that is neither a list nor a table. -/
def single : Reader Document := fun cs =>
  match string cs with
  | some (s, rest) => some (.text s, rest)
  | none => scalar cs

/-- A key, an equals sign and a value; `gap` passes over what may stand between them. -/
def assignment (gap : (cs : List Char) → Suffix cs) (value : Reader Document) :
    Reader Assignment := fun cs => do
  let ((path, key), rest) ← dottedKey cs
  match h : (gap rest.1).1 with
  | '=' :: tail =>
    let (doc, last) ← value (gap tail).1
    some (⟨path, key, doc⟩, ⟨last.1, by
      have hrest := rest.2
      have hgap := (gap rest.1).2
      have htail := (gap tail).2
      have hlast := last.2
      rw [h, List.length_cons] at hgap
      omega⟩)
  | _ => none

/-- A value with at most `depth` lists and tables inside each other. -/
def value : Nat → Reader Document
  | 0 => single
  | depth + 1 => fun cs =>
    match cs with
    | '[' :: rest => do
      let (items, last) ← Reader.items skipGap true (value depth) ']' rest
      some (.list items, last.widen (Nat.le_succ _))
    | '\x7b' :: rest => do
      let (items, last) ← Reader.items skipGap true (assignment skipGap (value depth)) '\x7d' rest
      let entries ← Entries.assignAll? [] items
      some (.table (entryDocuments entries), last.widen (Nat.le_succ _))
    | cs => single cs

/-! ### Lines -/

/-- What a line says. -/
inductive Line where
  | assignment (a : Assignment)
  | header (h : Header)

/-- A header between brackets. -/
def header : Reader Header
  | '[' :: '[' :: rest => do
    let ((path, key), last) ← dottedKey (rest.dropWhile isBlank)
    match h : (last.skip isBlank).1 with
    | ']' :: ']' :: tail => some (.item path key, ⟨tail, by
        have hlast := (last.skip isBlank).2
        have hrest := length_dropWhile_le isBlank rest
        rw [h] at hlast
        simp only [List.length_cons] at *
        omega⟩)
    | _ => none
  | '[' :: rest => do
    let ((path, key), last) ← dottedKey (rest.dropWhile isBlank)
    match h : (last.skip isBlank).1 with
    | ']' :: tail => some (.table path key, ⟨tail, by
        have hlast := (last.skip isBlank).2
        have hrest := length_dropWhile_le isBlank rest
        rw [h] at hlast
        simp only [List.length_cons] at *
        omega⟩)
    | _ => none
  | _ => none

/-- A line that is not empty. -/
def line : Reader Line := fun cs =>
  match header cs with
  | some (h, rest) => some (.header h, rest)
  | none => (assignment (.dropWhile isBlank) (value depthLimit) cs).map fun (a, rest) =>
    (.assignment a, rest)

/-- What is left behind a line and its remark is shorter than the text. -/
theorem length_skipRemark_lt {cs : List Char} {c : Char} {tail : List Char}
    (h : (skipGap cs).1 = c :: tail) (rest : Rest (c :: tail)) :
    (skipRemark rest.1).1.length < cs.length := by
  have hskip := (skipGap cs).2
  rw [h] at hskip
  exact Nat.lt_of_le_of_lt (skipRemark rest.1).2 (Nat.lt_of_lt_of_le rest.2 hskip)

/-- All lines of a text; a line holds nothing behind what it says but a comment. -/
def lines (cs : List Char) : Option (List Line) :=
  match h : (skipGap cs).1 with
  | [] => some []
  | c :: tail => do
    let (first, rest) ← line (c :: tail)
    let behind := skipRemark rest.1
    have := length_skipRemark_lt h rest
    if behind.1.isEmpty || (lineEnd? behind.1).isSome then
      return first :: (← lines behind.1)
    else none
termination_by cs.length

/-- The assignments in front of the first header, and the sections behind it. -/
def sections : List Line → List Assignment × List (Header × List Assignment)
  | [] => ([], [])
  | .assignment a :: rest => (a :: (sections rest).1, (sections rest).2)
  | .header h :: rest => ([], (h, (sections rest).1) :: (sections rest).2)

/-- A text without the byte order mark at its front. -/
def skipMark : List Char → List Char
  | '\uFEFF' :: rest => rest
  | cs => cs

/-- The document that a text writes in full. -/
def read? (cs : List Char) : Option Document := do
  let (own, others) := sections (← lines (skipMark cs))
  let entries ← others.foldlM (fun entries s => entries.addSection? s.1 s.2)
    (← Entries.assignAll? [] own)
  return .table (entryDocuments entries)

end ContainerCommand.Toml
