import ContainerCommand.Host.Disk
import ContainerCommand.Text.Narrow

/-! Patterns of the shell.

In a pattern a question mark stands for any byte, a star for any bytes, and brackets for one of
the bytes that they name. What a word becomes (`Glyph`) is spelt as a pattern first, where a
backslash stands in front of what is quoted (`Pattern.spell`); the spelling is then read
(`Pattern.ofSpelling`). A pattern with slashes stands for paths (`Pattern.paths`). -/
namespace ContainerCommand.Shell
open Host

/-- What a word becomes: bytes that may have a meaning, bytes that stand for themselves, and the
places where quotes were. -/
inductive Glyph where
  | live (c : Char)
  | fixed (c : Char)
  | mark
deriving DecidableEq

namespace Glyph

def char? : Glyph → Option Char
  | .live c | .fixed c => some c
  | .mark => none

/-- The glyphs of some characters. -/
def ofChars (isQuoted : Bool) (cs : List Char) : List Glyph :=
  cs.map fun c => if isQuoted then .fixed c else .live c

/-- The characters of some glyphs. -/
def chars (gs : List Glyph) : List Char := gs.filterMap char?

def text (gs : List Glyph) : String := String.ofList (chars gs)

end Glyph

/-- What brackets name. -/
inductive Member where
  | range (least greatest : Char)
  | letters (test : Char → Bool)

/-- A part of a pattern. -/
inductive Element where
  | char (c : Char)
  | one
  | many
  | among (isExcluded : Bool) (members : List Member)

abbrev Pattern : Type := List Element

/-- The classes of characters that brackets name by a word. -/
def letterClasses : List (String × (Char → Bool)) :=
  [("alnum", Char.isAlphanum), ("cntrl", fun c => c < ' ' || c == '\x7f'),
    ("lower", Char.isLower), ("space", fun c => c == ' ' || ('\t' ≤ c && c ≤ '\r')),
    ("alpha", Char.isAlpha), ("digit", Char.isDigit), ("print", fun c => ' ' ≤ c && c ≤ '~'),
    ("upper", Char.isUpper), ("blank", fun c => c == ' ' || c == '\t'),
    ("graph", fun c => '!' ≤ c && c ≤ '~'),
    ("punct", fun c => '!' ≤ c && c ≤ '~' && !c.isAlphanum),
    ("xdigit", fun c => c.isDigit || ('a' ≤ c && c ≤ 'f') || ('A' ≤ c && c ≤ 'F'))]

namespace Member

/-- The place of a byte in the order of a range: those beyond ASCII come first. -/
def rank (c : Char) : Int :=
  if c.toNat < 128 then c.toNat else c.toNat - 256

def takes (c : Char) : Member → Bool
  | .range least greatest => rank least ≤ rank c && rank c ≤ rank greatest
  | .letters test => test c

/-- The class that stands behind a bracket, and what follows. -/
def readClass? (cs : List Char) : Option (Member × List Char) :=
  letterClasses.findSome? fun (name, test) =>
    let spelling := (":" ++ name ++ ":]").toList
    if spelling.isPrefixOf cs then some (.letters test, cs.drop spelling.length) else none

/-- The characters behind a backslash, if one stands in front. -/
def unescape : List Char → List Char
  | '\\' :: cs => cs
  | cs => cs

/-- The members up to the closing bracket, and what follows; the first may be such a bracket. -/
def readAll : Nat → Bool → List Char → Option (List Member × List Char)
  | 0, _, _ | _, _, [] => none
  | fuel + 1, isFirst, c :: rest =>
    if !isFirst && c == ']' then some ([], rest)
    else
      match if c == '[' then readClass? rest else none with
      | some (member, rest) => do
        let (others, last) ← readAll fuel false rest
        return (member :: others, last)
      | none => do
        let (c, rest) ← match if c == '\\' then rest else c :: rest with
          | [] => none
          | c :: rest => some (c, rest)
        let (member, rest) ← match rest with
          | '-' :: d :: after =>
            if d == ']' then some (.range c c, rest)
            else match unescape (d :: after) with
              | [] => none
              | greatest :: after => some (.range c greatest, after)
          | rest => some (.range c c, rest)
        let (others, last) ← readAll fuel false rest
        return (member :: others, last)

end Member

namespace Element

def takes (c : Char) : Element → Bool
  | .char own => own == c
  | .one | .many => true
  | .among isExcluded members => members.any (Member.takes c) != isExcluded

/-- What brackets stand for, and what follows the closing one. -/
def readBrackets? (cs : List Char) : Option (Element × List Char) :=
  let isExcluded := cs.head? == some '!'
  let cs := if isExcluded then cs.drop 1 else cs
  (Member.readAll (cs.length + 1) true cs).map fun (members, rest) =>
    (.among isExcluded members, rest)

end Element

namespace Pattern

/-- How glyphs are spelt as a pattern. A backslash that may have a meaning takes the meaning from the
byte behind it. -/
def spell : Bool → List Glyph → List Char
  | _, [] => []
  | _, .mark :: rest => spell true rest
  | _, .live c :: rest => c :: spell (c != '\\') rest
  | true, .fixed c :: rest => '\\' :: c :: spell true rest
  | false, .fixed c :: rest => c :: spell true rest

def spelling (gs : List Glyph) : List Char := spell true gs

/-- The pattern of a spelling. -/
def read : Nat → List Char → Pattern
  | 0, _ | _, [] => []
  | fuel + 1, '\\' :: c :: rest => .char c :: read fuel rest
  | fuel + 1, c :: rest =>
    if c == '*' then .many :: read fuel rest
    else if c == '?' then .one :: read fuel rest
    else
      match if c == '[' then Element.readBrackets? rest else none with
      | some (element, rest) => element :: read fuel rest
      | none => .char c :: read fuel rest

def ofSpelling (cs : List Char) : Pattern := read (cs.length + 1) cs

def ofGlyphs (gs : List Glyph) : Pattern := ofSpelling (spelling gs)

/-- Whether a pattern stands for a text. -/
def accepts : Pattern → List Char → Bool
  | [], cs => cs.isEmpty
  | .many :: p, [] => accepts p []
  | .many :: p, c :: cs => accepts p (c :: cs) || accepts (.many :: p) cs
  | _ :: _, [] => false
  | element :: p, c :: cs => element.takes c && accepts p cs
termination_by p cs => p.length + cs.length

/-- A text without the part at its start that a pattern stands for, if there is one: the shortest or
the longest. -/
def dropStart (p : Pattern) (isLongest : Bool) (cs : List Char) : List Char :=
  let lengths := List.range (cs.length + 1)
  match (if isLongest then lengths.reverse else lengths).find? (accepts p <| cs.take ·) with
  | some n => cs.drop n
  | none => cs

/-- A text without the part at its end that a pattern stands for, if there is one. -/
def dropEnd (p : Pattern) (isLongest : Bool) (cs : List Char) : List Char :=
  let lengths := List.range (cs.length + 1)
  match (if isLongest then lengths else lengths.reverse).find? (accepts p <| cs.drop ·) with
  | some n => cs.take n
  | none => cs

/-! ### Paths -/

/-- Whether brackets that are open have a closing one before the next slash. -/
def closesBrackets : Nat → List Char → Bool
  | 0, _ => false
  | fuel + 1, cs =>
    match Member.unescape cs with
    | [] | '/' :: _ => false
    | _ :: ']' :: _ => true
    | _ :: rest => closesBrackets fuel rest

/-- The first part of a path that is a pattern: what stands before it, the part itself, and what
follows the slash behind it. Parts before it are gathered in `before`, the last first. -/
def splitPath : Nat → (before part : List Char) → Bool → List Char →
    List Char × List Char × Bool × Option (List Char)
  | 0, before, part, isPattern, _ => (before, part, isPattern, none)
  | _ + 1, before, part, isPattern, [] => (before, part, isPattern, none)
  | fuel + 1, before, part, isPattern, c :: rest =>
    let own := match c, rest with
      | '\\', d :: _ => [d, '\\']
      | _, _ => [c]
    let rest' := rest.drop (own.length - 1)
    if own.head? == some '/' then
      if isPattern then (before, part, true, some rest')
      else splitPath fuel (own ++ part ++ before) [] false rest'
    else
      let starts := c == '*' || c == '?' || (c == '[' &&
        closesBrackets (rest.length + 1) (if rest.head? == some '!' then rest.drop 1 else rest))
      splitPath fuel before (own ++ part) (isPattern || starts) rest'

/-- A spelling without backslashes in front of bytes. -/
def plain : List Char → List Char
  | '\\' :: c :: rest => c :: plain rest
  | c :: rest => c :: plain rest
  | [] => []

/-- The names in a directory. -/
def namesIn (disk : Disk) (directory : String) : List String :=
  match disk.find (if directory.isEmpty then "." else Text.widen directory).toList with
  | .ok (place, .directory) =>
    [".", ".."] ++ (disk.entries.filter fun e => !e.1.isEmpty && e.1.dropLast == place).filterMap
      fun e => e.1.getLast?.map Text.narrow
  | _ => []

/-- The paths behind a start that a spelling stands for. A name that starts with a dot is only meant
by a part that does. -/
def pathsBehind (disk : Disk) : Nat → String → List Char → List String
  | 0, _, _ => []
  | fuel + 1, start, cs =>
    let (before, part, isPattern, after) := splitPath (cs.length + 1) [] [] false cs
    if !isPattern then
      let path := start ++ String.ofList (plain cs)
      if !start.isEmpty && disk.exists? (Text.widen path).toList then [path] else []
    else
      let start := start ++ String.ofList (plain before.reverse)
      let part := part.reverse
      let startsWithDot := (Member.unescape part).head? == some '.'
      let names := (namesIn disk start).filter fun name =>
        (startsWithDot || !name.startsWith ".") && accepts (ofSpelling part) name.toList
      match after with
      | none => names.map (start ++ ·)
      | some rest => names.flatMap fun name => pathsBehind disk fuel (start ++ name ++ "/") rest

/-- The paths that glyphs stand for, in order. -/
def paths (disk : Disk) (gs : List Glyph) : List String :=
  let cs := spelling gs
  (pathsBehind disk (cs.length + 1) "" cs).mergeSort fun a b => decide (a ≤ b)

/-- Whether glyphs hold anything that could make them a pattern. -/
def isPattern (gs : List Glyph) : Bool :=
  (Glyph.chars gs).any fun c => c == '*' || c == '?' || c == '['

end Pattern

end ContainerCommand.Shell
