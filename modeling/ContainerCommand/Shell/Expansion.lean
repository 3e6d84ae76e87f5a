import ContainerCommand.Shell.Arithmetic
import ContainerCommand.Shell.Field
import ContainerCommand.Shell.Process

/-! Expansion: what the words of a command become when it runs.

A word is walked through from its start (`Walk.step`). Parameters, expressions and scripts in it
are replaced; what comes from them outside quotes may be cut into fields, as may the unquoted
text of a word between braces. The fields of a command that could be patterns are replaced by
the paths that they stand for, if there are any. -/
namespace ContainerCommand.Shell
open Host Act

/-- How a word is used. -/
structure Manner where
  /-- Whether it is cut into fields. -/
  isCut : Bool := false
  isQuoted : Bool := false
  /-- Whether it stands between braces. -/
  isInner : Bool := false
  /-- Whether a tilde at its start is a directory. -/
  startsTilde : Bool := false
  /-- Whether it assigns, so that tildes behind an equals sign and colons are directories. -/
  assigns : Bool := false
  /-- Whether an equals sign has been passed. -/
  isBehindEquals : Bool := false

/-- Runs a script apart and gives what it writes. -/
abbrev Capture : Type := Script → Act String

/-- Finds what a word becomes. -/
abbrev Expander : Type := Manner → Word → Act (List Segment)

namespace Expansion

/-! ### Parameters -/

/-- The characters that part fields. -/
def breaks : Act (List Char) := do
  return ((← value? "IFS").getD " \t\n").toList

/-- The character between arguments, if there is one. Where fields are cut it is one that always parts
them. -/
def separator (isApart isCut : Bool) : Act (Option Char) := do
  let own := (← value? "IFS").map String.toList
  if isApart then return some '\x00'
  else if isCut then return some (if own.isSome then '\x00' else ' ')
  else return (own.getD [' ']).head?

/-- The characters of the value of a parameter, if it has one. -/
def parameter? (name : String) (isCut isQuoted : Bool) : Act (Option (List Char)) := do
  let s ← shell
  let joined (isApart : Bool) : Act (List Char) := do
    let between := (← separator isApart (isCut && !isQuoted)).toList
    return between.intercalate (s.args.map String.toList)
  match name.toList with
  | ['$'] => return some (toString s.root).toList
  | ['?'] => return some (toString s.status).toList
  | ['#'] => return some (toString s.args.length).toList
  | ['!'] => return s.lastAside.map fun n => (toString n).toList
  | ['-'] => return some s.options.letters.toList
  | ['@'] => return some (← joined (isCut && isQuoted))
  | ['*'] => return some (← joined false)
  | c :: cs =>
    if c.isDigit then
      match (String.ofList (c :: cs)).toNat? with
      | some 0 => return some s.name.toList
      | some (n + 1) => return s.args[n]?.map String.toList
      | none => return none
    else return (← value? name).map String.toList
  | [] => return none

/-- Refuses a parameter without a value. -/
def refuseUnset {α : Type} (name : String) : Act α :=
  fail (name ++ ": parameter not set")

/-- What a parameter becomes. -/
def expandParameter (self : Expander) (m : Manner) (name : String) (use : Use)
    (countsEmpty : Bool) (other : Word) : Act (List Segment) := do
  if use = .unknown then fail "Bad substitution"
  let s ← shell
  let value ← parameter? name m.isCut m.isQuoted
  let isMissing := match value with
    | none => true
    | some cs => countsEmpty && cs.isEmpty
  let whole (cs : List Char) : List Segment :=
    let cut := if !m.isQuoted then .fields
      else if name == "@" && !s.args.isEmpty then .arguments
      else .nowhere
    [⟨Glyph.ofChars m.isQuoted cs, cut⟩]
  let own := whole (value.getD [])
  let inner : Manner := { m with isInner := true, startsTilde := true }
  match use with
  | .fallback => if isMissing then self inner other else return own
  | .replacement => if isMissing then return whole [] else self inner other
  | .assignment =>
    if !isMissing then return own
    else
      assign name (Segment.text (← self { startsTilde := true } other))
      return whole ((← parameter? name m.isCut m.isQuoted).getD [])
  | .refusal =>
    if !isMissing then return own
    else
      let reason := Segment.text (← self { startsTilde := true } other)
      fail (name ++ ": " ++ if !other.isEmpty then reason
        else "parameter not set" ++ if countsEmpty then " or null" else "")
  | use =>
    if isMissing && s.options.refusesUnset then refuseUnset name
    match use, value with
    | .length, value => return whole (toString (value.getD []).length).toList
    | .trim atStart isLongest, some cs =>
      let pattern := Pattern.ofGlyphs (Segment.glyphsOf (← self { startsTilde := true } other))
      return whole (if atStart then Pattern.dropStart pattern isLongest cs
        else Pattern.dropEnd pattern isLongest cs)
    | _, _ => return own

/-! ### Directories -/

/-- The directories of users. -/
def homes : List (String × String) :=
  [("root", "/root"), ("daemon", "/usr/sbin"), ("bin", "/bin"), ("sys", "/dev"),
    ("nobody", "/nonexistent")]

/-- The text that a tilde and the parts behind it name a directory with, if they do. -/
def tildeName? (endsAtColon : Bool) : List Part → Option (List Char)
  | .live c :: rest =>
    if c == '/' || (endsAtColon && c == ':') then some []
    else (tildeName? endsAtColon rest).map (c :: ·)
  | [] => some []
  | _ :: _ => none

/-- The directory that a tilde stands for with a name behind it. -/
def home? (name : List Char) : Act (Option String) :=
  if name.isEmpty then value? "HOME" else return homes.lookup (String.ofList name)

/-! ### Words -/

/-- A walk through a word. -/
structure Walk where
  manner : Manner
  /-- What the parts have become, the last first. -/
  done : List Segment := []
  /-- Characters that may be cut, the last first. -/
  run : List Char := []
  inQuotes : Bool := false
  /-- Whether a tilde would be a directory. -/
  atTilde : Bool
  /-- How many parts have been taken already. -/
  skipped : Nat := 0

namespace Walk

/-- Ends the characters that may be cut. -/
def endRun (w : Walk) : Walk :=
  if w.run.isEmpty then w
  else { w with run := [], done := ⟨w.run.reverse.map .live, .fields⟩ :: w.done }

def put (w : Walk) (segments : List Segment) : Walk :=
  let w := w.endRun
  { w with done := segments.reverse ++ w.done }

/-- Takes a character that may have a meaning. -/
def putLive (w : Walk) (c : Char) : Walk :=
  let m := w.manner
  let isEquals := m.assigns && !m.isBehindEquals && c == '='
  let w := { w with
    manner := { m with isBehindEquals := m.isBehindEquals || isEquals }
    atTilde := isEquals || (m.assigns && c == ':') }
  if m.isInner && !m.isQuoted && !w.inQuotes then { w with run := c :: w.run }
  else w.put [⟨[.live c], .nowhere⟩]

/-- The manner in which a part is used. -/
def inner (w : Walk) : Manner :=
  { w.manner with isQuoted := w.manner.isQuoted || w.inQuotes }

/-- Passes a place where quotes are. -/
def passMark (w : Walk) : Walk :=
  { w.put [⟨[.mark], .nowhere⟩] with inQuotes := !w.inQuotes }

/-- What stands in place of an expression or a script. -/
def replaced (w : Walk) (cs : List Char) : List Segment :=
  let isQuoted := w.inner.isQuoted
  [⟨Glyph.ofChars isQuoted cs, if isQuoted then .nowhere else .fields⟩]

/-- What the parts of a word become. -/
def through (capture : Capture) (self : Expander) : List Part → Walk → Act (List Segment)
  | [], w => return w.endRun.done.reverse
  | part :: rest, w => do
    if 0 < w.skipped then through capture self rest { w with skipped := w.skipped - 1 }
    else
      let atTilde := w.atTilde
      let w := { w with atTilde := false }
      match part, rest with
      | .mark, .parameter "@" .plain false [] :: .mark :: _ =>
        if w.inQuotes then through capture self rest (w.passMark)
        else
          let segments ← expandParameter self { w.manner with isQuoted := true } "@" .plain false []
          through capture self rest { w.put segments with skipped := 2 }
      | .mark, _ => through capture self rest w.passMark
      | .fixed c, _ => through capture self rest (w.put [⟨[.fixed c], .nowhere⟩])
      | .live c, _ =>
        let name? := if atTilde && c == '~' then tildeName? w.manner.assigns rest else none
        match name? with
        | none => through capture self rest (w.putLive c)
        | some name =>
          match ← home? name with
          | none => through capture self rest (w.putLive c)
          | some home =>
            let w := w.put [⟨Glyph.ofChars true home.toList, .nowhere⟩]
            through capture self rest { w with skipped := name.length }
      | .parameter name use countsEmpty other, _ =>
        let segments ← expandParameter self w.inner name use countsEmpty other
        if use = .plain && countsEmpty then
          return (w.put segments).endRun.done.reverse ++ (← self w.inner other)
        else through capture self rest (w.put segments)
      | .arithmetic expression, _ =>
        let text := (Segment.text (← self {} expression)).toList
        let s ← shell
        let lookUp (name : String) : String := ((s.vars.get? name).bind Variable.value?).getD ""
        match Arithmetic.value lookUp text with
        | .error fault => fail (fault.message (String.ofList text))
        | .ok (n, assigned) =>
          let shown (n : Int) : String := (Number.Numeral.ofInt n).text
          for (name, n) in assigned.reverse do assign name (shown n)
          through capture self rest (w.put (w.replaced (shown n).toList))
      | .output script, _ =>
        let text ← capture script
        let cs := (text.toList.reverse.dropWhile (· == '\n')).reverse
        through capture self rest (w.put (w.replaced cs))

end Walk

/-- Finds what a word becomes that is not nested too deep. -/
def expander (capture : Capture) : Nat → Expander
  | 0 => fun _ _ => throw .endless
  | depth + 1 => fun m w =>
    Walk.through capture (expander capture depth) w { manner := m, atTilde := m.startsTilde }

end Expansion

open Expansion

/-- What a word becomes. -/
def expand (capture : Capture) : Expander := expander capture stepLimit

/-- The text of a word that is not cut. -/
def expandText (capture : Capture) (m : Manner) (w : Word) : Act String := do
  return Segment.text (← expand capture m w)

/-- The pattern that a word makes. -/
def expandPattern (capture : Capture) (w : Word) : Act Pattern := do
  return Pattern.ofGlyphs (Segment.glyphsOf (← expand capture { startsTilde := true } w))

/-- The fields of a word. -/
def expandFields (capture : Capture) (w : Word) : Act (List String) := do
  let segments ← expand capture { isCut := true, startsTilde := true } w
  let s ← shell
  let disk ← disk
  return (fieldsOf (← breaks) none segments).flatMap fun gs =>
    if s.options.keepsPatterns || !Pattern.isPattern gs then [Glyph.text gs]
    else
      match Pattern.paths disk gs with
      | [] => [Glyph.text gs]
      | paths => paths

/-- The text of a passage. -/
def expandPassage (capture : Capture) (p : Passage) : Act String :=
  if p.isFixed then return String.ofList (Word.text p.text)
  else expandText capture { isQuoted := true } p.text

end ContainerCommand.Shell
