import ContainerCommand.Number.Word
import ContainerCommand.Shell.Builtin.Argument

/-! What processes may do: the modes of new files, limits, and the time that has been used. -/
namespace ContainerCommand.Shell
open Number

/-! ### Modes of files -/

namespace Mode

/-- The three bits of a class of users in a mode: the owner, the group and the others. -/
def bits (mode : Nat) (who : Char) : Nat :=
  match who with
  | 'u' => mode / 64 % 8
  | 'g' => mode / 8 % 8
  | _ => mode % 8

/-- A mode with other bits for a class. -/
def withBits (mode : Nat) (who : Char) (bits : Nat) : Nat :=
  match who with
  | 'u' => mode % 64 + 64 * bits
  | 'g' => mode / 64 * 64 + 8 * bits + mode % 8
  | _ => mode / 8 * 8 + bits

/-- The bits that a letter stands for, if it is one. -/
def letterBits? (mode : Nat) (c : Char) : Option Nat :=
  match c with
  | 'r' => some 4
  | 'w' => some 2
  | 'x' => some 1
  | 'X' => some (if mode &&& 73 = 0 then 0 else 1)
  | 's' => some 0
  | 'u' | 'g' | 'o' => some (bits mode c)
  | _ => none

/-- What a sign makes of the bits of a class. -/
def change (sign : Char) (old new : Nat) : Nat :=
  match sign with
  | '+' => old ||| new
  | '-' => old &&& (7 - new)
  | _ => new

/-- Reads what follows the classes in a part of a mode: signs, each with letters. -/
def readChanges (who : List Char) : Nat → List Char → Nat → Option Nat
  | 0, _, _ => none
  | _ + 1, [], mode => some mode
  | steps + 1, sign :: rest, mode =>
    if sign != '+' && sign != '-' && sign != '=' then none
    else
      let letters := rest.takeWhile fun c => c != '+' && c != '-' && c != '='
      match letters.mapM (letterBits? mode) with
      | none => none
      | some given =>
        let given := given.foldl (· ||| ·) 0
        let mode := who.foldl (fun m c => withBits m c (change sign (bits m c) given)) mode
        readChanges who steps (rest.drop letters.length) mode

/-- Whether a letter names classes of users. -/
def isWho (c : Char) : Bool := "ugoa".toList.contains c

/-- What a part of a mode makes of a mode. Without classes it is about all of them. -/
def readPart? (mode : Nat) (part : List Char) : Option Nat :=
  let who := (part.takeWhile isWho).flatMap fun c => if c == 'a' then ['u', 'g', 'o'] else [c]
  let rest := part.dropWhile isWho
  readChanges (if who.isEmpty then ['u', 'g', 'o'] else who) (rest.length + 1) rest mode

/-- The mode that a text makes of a mode. Every part that another one follows changes something; the
last may be empty. -/
def ofText? (text : String) (mode : Nat) : Option Nat :=
  let parts := (text.splitOn ",").map String.toList
  if parts.dropLast.all fun part => !(part.dropWhile isWho).isEmpty then
    parts.foldlM readPart? mode
  else none

/-- The text of a mode. -/
def text (mode : Nat) : String :=
  let letters (who : Char) : String :=
    let b := bits mode who
    String.ofList ([(4, 'r'), (2, 'w'), (1, 'x')].filterMap fun (bit, c) =>
      if b &&& bit = 0 then none else some c)
  ",".intercalate (['u', 'g', 'o'].map fun who => who.toString ++ "=" ++ letters who)

end Mode

namespace Act

/-- Says which modes new files do not get, or changes that. -/
def maskCommand (args : List String) : Act Nat := do
  let c ← choose "S" args
  let mask := (← shell).mask
  match c.rest with
  | [] =>
    let digits := Nat.toDigits 8 mask
    put ((if c.has 'S' then Mode.text (511 - mask)
      else String.ofList (List.replicate (4 - digits.length) '0' ++ digits)) ++ "\n")
    return 0
  | arg :: _ =>
    let cs := arg.toList
    let mask ← if cs.head?.any Char.isDigit then
        if cs.all fun c => '0' ≤ c && c ≤ '7' then
          pure (cs.foldl (fun n c => (8 * n + (c.toNat - '0'.toNat)) % 512) 0)
        else fail ("Illegal number: " ++ arg)
      else match Mode.ofText? arg (511 - mask) with
        | some mode => pure (511 - mode)
        | none => fail ("Illegal mode: " ++ arg)
    changeShell ({ · with mask })
    return 0

/-! ### Limits -/

/-- What can be limited: its letter, its name, the unit that it is counted in, and how far it is
limited where nothing has been said. -/
def limitTable : List (Char × String × Nat × Limit) :=
  [('t', "time(seconds)", 1, {}), ('f', "file(blocks)", 512, {}), ('d', "data(kbytes)", 1024, {}),
    ('s', "stack(kbytes)", 1024, ⟨some 8388608, none⟩),
    ('c', "coredump(blocks)", 512, ⟨some 0, none⟩), ('m', "memory(kbytes)", 1024, {}),
    ('l', "locked memory(kbytes)", 1024, ⟨some 8388608, some 8388608⟩),
    ('p', "process", 1, ⟨some 128604, some 128604⟩), ('n', "nofiles", 1, ⟨some 20000, some 20000⟩),
    ('v', "vmemory(kbytes)", 1024, {}), ('w', "locks", 1, {}), ('r', "rtprio", 1, ⟨some 0, some 0⟩)]

/-- Whether an amount is within a limit. -/
def isWithin (amount limit : Option Nat) : Bool :=
  match amount, limit with
  | _, none => true
  | none, some _ => false
  | some n, some m => n ≤ m

/-- The amount that a text writes in some unit; it is counted in words. -/
def amount? (unit : Nat) (text : String) : Option (Option Nat) :=
  if text == "unlimited" then some none
  else if text.toList.all Char.isDigit then
    let n := text.toList.foldl (fun n c => 10 * n + (c.toNat - '0'.toNat)) 0
    some (some (n * unit % wordCount 64))
  else none

/-- The text of a limit that is asked for as it is now, or as far as it may be raised. -/
def limitText (isSoft : Bool) (unit : Nat) (limit : Limit) : String :=
  match if isSoft then limit.soft else limit.hard with
  | none => "unlimited\n"
  | some n => toString (n / unit) ++ "\n"

/-- How far something is limited. -/
def limitOf (letter : Char) (usual : Limit) : Act Limit := do
  return ((← shell).limits.lookup letter).getD usual

/-- Limits something anew. -/
def setLimit (letter : Char) (usual limit : Limit) : Act Unit := do
  let before ← limitOf letter usual
  if !isWithin limit.soft limit.hard then fail "error setting limit (Invalid argument)"
  if !isWithin limit.hard before.hard then fail "error setting limit (Operation not permitted)"
  changeShell fun s => { s with limits := (letter, limit) :: s.limits.filter (·.1 != letter) }

/-- Says how far something is limited, or limits it. -/
def limitCommand (args : List String) : Act Nat := do
  let c ← choose "HSatfdscmlpnvwr" args
  let isHow (letter : Char) : Bool := letter == 'H' || letter == 'S'
  let letters := c.options.map Prod.fst
  let how := (letters.filter isHow).getLast?
  let letter := (letters.filter fun l => !isHow l && l != 'a').getLast?.getD 'f'
  let isSoft := how != some 'H'
  let (_, unit, usual) := (limitTable.lookup letter).getD ("", 1, {})
  let amount ← match c.rest with
    | [] => pure none
    | arg :: others => do
      if c.has 'a' || !others.isEmpty then fail "too many arguments"
      match amount? unit arg with
      | some amount => pure (some amount)
      | none => fail "bad number"
  if c.has 'a' then
    for (letter, name, unit, usual) in limitTable do
      put (name ++ String.ofList (List.replicate (20 - name.length) ' ') ++ " " ++
        limitText isSoft unit (← limitOf letter usual))
    return 0
  let before ← limitOf letter usual
  match amount with
  | none => put (limitText isSoft unit before)
  | some amount =>
    setLimit letter usual ⟨if isSoft then amount else before.soft,
      if how != some 'S' then amount else before.hard⟩
  return 0

/-- Says how much time has been used. -/
def timesCommand : Act Nat := do
  put (String.join (List.replicate 2 "0m0.000000s 0m0.000000s\n"))
  return 0

end Act

end ContainerCommand.Shell
