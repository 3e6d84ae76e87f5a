import ContainerCommand.Shell.Pattern

/-! Fields: what a word becomes is cut.

A word becomes segments (`Segment`). Some may be cut wherever a character stands that parts
fields, some only between arguments, and some not at all; what is not cut belongs to the field
that has been started. Blanks part fields, and any other such character ends one, which may be
empty. If only so many fields are wanted, the last one takes all that is left. -/
namespace ContainerCommand.Shell

/-- Where a segment may be cut. -/
inductive Cut where
  | nowhere
  | fields
  /-- Between arguments, which a null character parts. -/
  | arguments
deriving DecidableEq

structure Segment where
  glyphs : List Glyph
  cut : Cut := .nowhere

namespace Segment

/-- All that segments hold. -/
def glyphsOf (segments : List Segment) : List Glyph := segments.flatMap glyphs

/-- The text that segments make when nothing is cut. -/
def text (segments : List Segment) : String := Glyph.text (glyphsOf segments)

end Segment

/-- What has been cut off, and the field that has been started. -/
structure Splitting where
  /-- The fields, the last first. -/
  done : List (List Glyph) := []
  /-- The field that has been started, its last glyph first. -/
  field : List Glyph := []
  /-- Whether a blank has ended the last field. -/
  isBehindBlank : Bool := false
  /-- How many fields are wanted, the one that has been started among them. -/
  limit : Option Nat := none
  /-- The part of the last field that is kept if nothing but blanks follows. -/
  kept : Option (List Glyph) := none
  /-- Whether the last segment that could be cut held arguments. -/
  hasArguments : Bool := false

namespace Splitting

def put (s : Splitting) (g : Glyph) : Splitting :=
  { s with field := g :: s.field }

/-- Takes a glyph of the last field that is wanted. -/
def takeLast (s : Splitting) (isBreak isBlank : Bool) (g : Glyph) : Splitting :=
  if isBlank then { s.put g with kept := some (s.kept.getD s.field) }
  else
    { s.put g with
      kept := if isBreak && s.isBehindBlank then s.kept else none
      isBehindBlank := false }

/-- Takes a glyph that parts fields. -/
def takeBreak (s : Splitting) (isBlank isWhole : Bool) (g : Glyph) : Splitting :=
  let isBehindBlank := if isWhole then s.isBehindBlank else isBlank
  if s.field.isEmpty && isBehindBlank then { s with isBehindBlank := false }
  else
    let s := { s with isBehindBlank }
    let ended := { s with done := s.field :: s.done, field := [] }
    match s.limit with
    | some 1 => { s.put g with limit := some 0, kept := some s.field }
    | some (n + 1) => { ended with limit := some n }
    | _ => ended

/-- Takes a glyph of a segment that may be cut at some characters; `isWhole` says that blanks part
nothing but fields. -/
def take (breaks : List Char) (isWhole : Bool) (s : Splitting) (g : Glyph) : Splitting :=
  let isAmong (cs : List Char) : Bool := g.char?.any fun c => c == '\x00' || cs.contains c
  let isBreak := isAmong breaks
  let isBlank := isBreak && isAmong [' ', '\t', '\n']
  if s.limit = some 0 then s.takeLast isBreak isBlank g
  else if s.isBehindBlank then
    if isBlank then s
    else if isBreak then { s with isBehindBlank := false }
    else { s.put g with isBehindBlank := false }
  else if isBreak then s.takeBreak isBlank isWhole g
  else s.put g

/-- Takes a segment. -/
def takeSegment (breaks : List Char) (s : Splitting) (segment : Segment) : Splitting :=
  match segment.cut with
  | .nowhere => segment.glyphs.foldl put s
  | cut =>
    let hasArguments := cut == .arguments
    let isWhole := s.hasArguments || hasArguments
    let s := { s with hasArguments, isBehindBlank := false }
    segment.glyphs.foldl (take (if hasArguments then [] else breaks) isWhole) s

/-- The fields that have been found. -/
def finish (s : Splitting) : List (List Glyph) :=
  let field := if s.hasArguments then s.field else s.kept.getD s.field
  let all := if s.hasArguments || !field.isEmpty then field :: s.done else s.done
  all.reverse.map List.reverse

end Splitting

/-- The fields of segments, as many as are wanted. -/
def fieldsOf (breaks : List Char) (limit : Option Nat) (segments : List Segment) :
    List (List Glyph) :=
  (segments.foldl (Splitting.takeSegment breaks) { limit }).finish

end ContainerCommand.Shell
