import ContainerCommand.Number.Numeral

/-! Dates and times.

A moment is a date, a time of day, or both with an optional offset. Its normal form has
a `T` between date and time, always seconds, and of a fraction no zeros at the end. -/
namespace ContainerCommand.Toml
open Number

structure Date where
  year : Nat
  month : Nat
  day : Nat

structure Time where
  hour : Nat
  minute : Nat
  second : Nat
  /-- The digits of the fraction of a second, at most nine. -/
  fraction : List Char

/-- How far a time of day is from the prime meridian's. -/
inductive Offset where
  | absent
  | zulu
  | minutes (n : Int)

inductive Moment where
  | date (d : Date)
  | time (t : Time)
  | both (d : Date) (t : Time) (o : Offset)

namespace Date

/-- The number of days in a month. -/
def daysIn (year month : Nat) : Nat :=
  if month = 2 then
    if year % 4 = 0 ∧ (year % 100 ≠ 0 ∨ year % 400 = 0) then 29 else 28
  else if month = 4 ∨ month = 6 ∨ month = 9 ∨ month = 11 then 30
  else 31

def isValid (d : Date) : Bool :=
  1 ≤ d.month && d.month ≤ 12 && 1 ≤ d.day && d.day ≤ daysIn d.year d.month

end Date

/-! ### Reading -/

/-- The number that exactly `n` digits at the front of a text write. -/
def digits? (n : Nat) (cs : List Char) : Option (Nat × List Char) :=
  let digits := cs.take n
  if digits.length = n ∧ digits.all Char.isDigit then
    some (ofDigits (digits.map digitValue), cs.drop n)
  else none

/-- What follows an expected character. -/
def expect? (expected : Char) : List Char → Option (List Char)
  | [] => none
  | c :: rest => if c = expected then some rest else none

def Date.read? (cs : List Char) : Option (Date × List Char) := do
  let (year, rest) ← digits? 4 cs
  let (month, rest) ← digits? 2 (← expect? '-' rest)
  let (day, rest) ← digits? 2 (← expect? '-' rest)
  let d : Date := ⟨year, month, day⟩
  if d.isValid then some (d, rest) else none

/-- The seconds and their fraction at the front of a text; both are zero if they are left out. -/
def Time.readSeconds? : List Char → Option ((Nat × List Char) × List Char)
  | ':' :: rest => do
    let (second, rest) ← digits? 2 rest
    match rest with
    | '.' :: rest =>
      let digits := rest.takeWhile Char.isDigit
      if digits.isEmpty then none
      else some ((second, digits.take 9), rest.dropWhile Char.isDigit)
    | rest => some ((second, []), rest)
  | rest => some ((0, []), rest)

def Time.read? (cs : List Char) : Option (Time × List Char) := do
  let (hour, rest) ← digits? 2 cs
  let (minute, rest) ← digits? 2 (← expect? ':' rest)
  let ((second, fraction), rest) ← readSeconds? rest
  if hour ≤ 23 ∧ minute ≤ 59 ∧ second ≤ 60 then
    some (⟨hour, minute, second, fraction⟩, rest)
  else none

/-- The offset that a text writes in full. -/
def Offset.read? : List Char → Option Offset
  | [] => some .absent
  | ['Z'] | ['z'] => some .zulu
  | c :: rest => do
    if c ≠ '+' ∧ c ≠ '-' then none
    else
      let (hours, rest) ← digits? 2 rest
      let (beyond, rest) ← digits? 2 (← expect? ':' rest)
      if rest.isEmpty ∧ hours ≤ 23 ∧ beyond ≤ 59 then
        let total : Int := (60 * hours + beyond : Nat)
        some (.minutes (if c = '-' then -total else total))
      else none

/-- The moment that a text writes in full. -/
def Moment.read? (cs : List Char) : Option Moment :=
  match Date.read? cs with
  | none =>
    match Time.read? cs with
    | some (t, []) => some (.time t)
    | _ => none
  | some (d, []) => some (.date d)
  | some (d, c :: rest) => do
    if c ≠ 'T' ∧ c ≠ 't' ∧ c ≠ ' ' then none
    else
      let (t, rest) ← Time.read? rest
      return .both d t (← Offset.read? rest)

/-! ### Writing -/

/-- A number with zeros in front up to a width. -/
def padded (width n : Nat) : List Char :=
  let digits := Nat.toDigits 10 n
  List.replicate (width - digits.length) '0' ++ digits

/-- A fraction behind its point, without the zeros at the end; nothing if it is zero. -/
def fractionText (digits : List Char) : List Char :=
  match (digits.reverse.dropWhile (· == '0')).reverse with
  | [] => []
  | trimmed => '.' :: trimmed

def Date.text (d : Date) : List Char :=
  padded 4 d.year ++ '-' :: padded 2 d.month ++ '-' :: padded 2 d.day

def Time.text (t : Time) : List Char :=
  padded 2 t.hour ++ ':' :: padded 2 t.minute ++ ':' :: padded 2 t.second ++
    fractionText t.fraction

def Offset.text : Offset → List Char
  | .absent => []
  | .zulu => ['Z']
  | .minutes n =>
    (if n < 0 then '-' else '+') :: padded 2 (n.natAbs / 60) ++ ':' :: padded 2 (n.natAbs % 60)

/-- The normal form. -/
def Moment.text : Moment → String
  | .date d => String.ofList d.text
  | .time t => String.ofList t.text
  | .both d t o => String.ofList (d.text ++ 'T' :: t.text ++ o.text)

end ContainerCommand.Toml
