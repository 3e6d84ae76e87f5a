/-! Readers over texts.

A reader takes a value off the front of a text and hands on what is left, together
with the fact that this is shorter. Loops over readers end for that reason: a list of
items between two brackets, however each item is read, is `Reader.items`. -/
namespace ContainerCommand.Text

/-- What is left of a text after at least one of its characters has been read. -/
abbrev Rest (cs : List Char) : Type := { rest : List Char // rest.length < cs.length }

/-- What is left of a text, which may be all of it. -/
abbrev Suffix (cs : List Char) : Type := { rest : List Char // rest.length ≤ cs.length }

/-- Takes a value off the front of a text. -/
abbrev Reader (α : Type) : Type := (cs : List Char) → Option (α × Rest cs)

theorem length_dropWhile_le (p : Char → Bool) (cs : List Char) :
    (cs.dropWhile p).length ≤ cs.length :=
  (List.dropWhile_sublist p).length_le

namespace Suffix

def all (cs : List Char) : Suffix cs :=
  ⟨cs, Nat.le_refl _⟩

/-- What is left behind some characters. -/
def drop (n : Nat) (cs : List Char) : Suffix cs :=
  ⟨cs.drop n, by simp⟩

/-- What is left without the characters of a class at the front. -/
def dropWhile (p : Char → Bool) (cs : List Char) : Suffix cs :=
  ⟨cs.dropWhile p, length_dropWhile_le p cs⟩

/-- What is left of a shorter text is left of the longer one too. -/
def widen {cs ds : List Char} (suffix : Suffix ds) (h : ds.length ≤ cs.length) : Suffix cs :=
  ⟨suffix.1, Nat.le_trans suffix.2 h⟩

/-- What is left of a text is left of the text with one more character in front. -/
def behind {c : Char} {cs : List Char} (suffix : Suffix cs) : Suffix (c :: cs) :=
  ⟨suffix.1, Nat.le_succ_of_le suffix.2⟩

end Suffix

namespace Rest

/-- What is left of a text behind its first character. -/
def behind {c : Char} {cs : List Char} (suffix : Suffix cs) : Rest (c :: cs) :=
  ⟨suffix.1, Nat.lt_succ_of_le suffix.2⟩

/-- All that is behind the first character. -/
def tail {c : Char} (cs : List Char) : Rest (c :: cs) :=
  behind (.all cs)

def toSuffix {cs : List Char} (rest : Rest cs) : Suffix cs :=
  ⟨rest.1, Nat.le_of_lt rest.2⟩

/-- What is left of a shorter text is left of the longer one too. -/
def widen {cs ds : List Char} (rest : Rest ds) (h : ds.length ≤ cs.length) : Rest cs :=
  ⟨rest.1, Nat.lt_of_lt_of_le rest.2 h⟩

/-- What is left of what is left. -/
def within {cs ds : List Char} (rest : Rest ds) (h : ds.length < cs.length) : Rest cs :=
  ⟨rest.1, Nat.lt_trans rest.2 h⟩

/-- What is left, without the characters of a class at its front. -/
def skip {cs : List Char} (rest : Rest cs) (p : Char → Bool) : Rest cs :=
  ⟨rest.1.dropWhile p, Nat.lt_of_le_of_lt (length_dropWhile_le p rest.1) rest.2⟩

/-- Nothing behind the first character of what is left is as long as the text. -/
theorem length_dropWhile_tail_lt {cs : List Char} (rest : Rest cs) {c : Char} {tail : List Char}
    (h : rest.1 = c :: tail) (p : Char → Bool) : (tail.dropWhile p).length < cs.length := by
  have := length_dropWhile_le p tail
  have := rest.2
  rw [h, List.length_cons] at this
  omega

end Rest

namespace Reader

/-- The longest run of characters of a class, of which there is at least one. -/
def run (p : Char → Bool) : Reader (List Char)
  | [] => none
  | c :: rest =>
    if p c then some (c :: rest.takeWhile p, .behind (.dropWhile p rest)) else none

/-- One character. -/
def char (expected : Char) : Reader Unit
  | [] => none
  | c :: rest => if c == expected then some ((), .tail rest) else none

/-- Items separated by commas up to a closing bracket, at least one; `skip` passes over what may
stand between them, and `trailing` allows a comma behind the last. -/
def itemsUntil {α : Type} (skip : (cs : List Char) → Suffix cs)
    (trailing : Bool) (item : Reader α) (close : Char) (cs : List Char) :
    Option (List α × Rest cs) :=
  match item (skip cs).1 with
  | none => none
  | some (a, rest) =>
    let rest : Rest cs := rest.widen (skip cs).2
    match h : (skip rest.1).1 with
    | [] => none
    | c :: tail =>
      have hlt : tail.length + 1 < cs.length := by
        have := (skip rest.1).2
        have := rest.2
        rw [h] at *
        simp only [List.length_cons] at *
        omega
      if c == close then some ([a], ⟨tail, by omega⟩)
      else if c == ',' then
        match hs : (skip tail).1 with
        | [] => none
        | d :: end_ =>
          have hend : end_.length + 1 ≤ tail.length := by
            have := (skip tail).2
            rw [hs] at this
            simpa using this
          if trailing && d == close then some ([a], ⟨end_, by omega⟩)
          else
            match itemsUntil skip trailing item close tail with
            | none => none
            | some (as, last) => some (a :: as, ⟨last.1, by have := last.2; omega⟩)
      else none
termination_by cs.length
decreasing_by omega

/-- Items separated by commas up to a closing bracket. -/
def items {α : Type} (skip : (cs : List Char) → Suffix cs)
    (trailing : Bool) (item : Reader α) (close : Char) (cs : List Char) :
    Option (List α × Rest cs) :=
  match h : (skip cs).1 with
  | [] => none
  | c :: rest =>
    if c == close then
      some ([], ⟨rest, by have := (skip cs).2; rw [h] at this; exact this⟩)
    else itemsUntil skip trailing item close cs

end Reader

end ContainerCommand.Text
