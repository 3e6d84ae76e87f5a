import ContainerCommand.Document
import ContainerCommand.Text.Reader

/-! Reading JSON.

The grammar is the standard's. Three decisions are the format's own: lists and
tables nest at most `depthLimit` deep; a whole number beyond the range of a signed
word is read as a floating-point number, and so is minus zero; and a number with a
point or an exponent is its first digits, as many as an unsigned word holds, scaled by
a power of ten (`scaled?`). Each scaling step is rounded, so the result is not always
the number nearest to the numeral.

A record knows the names of its fields. What stands under any other name is passed over
(`Policy.grammar`): its grammar is checked, but its numbers have no range, its escapes
need not name characters, and it may nest as deep as it likes. -/
namespace ContainerCommand.Json
open Number Text

/-- How deep lists and tables nest. -/
def depthLimit : Nat := 127

/-- The blanks between the parts of a document. -/
def isSpace (c : Char) : Bool :=
  c == ' ' || c == '\n' || c == '\t' || c == '\r'

def skip (cs : List Char) : Suffix cs := .dropWhile isSpace cs

/-! ### Numbers -/

/-- The numeral that a text writes in full: no plus sign, no zero in front of other digits, and
digits on both sides of a point. -/
def numeral? (cs : List Char) : Option Numeral := do
  let (negative, rest) := match cs with
    | '-' :: rest => (true, rest)
    | rest => (false, rest)
  let (whole, rest) := spanDigits rest
  let (fraction, rest) := match rest with
    | '.' :: rest => let (digits, rest) := spanDigits rest; (some digits, rest)
    | rest => (none, rest)
  let (power, rest) ← readPower? rest
  if whole.isEmpty || (whole.head? == some 0 && 1 < whole.length) || fraction == some [] ||
      !rest.isEmpty then none
  else some { negative, whole, fraction, power }

/-- The largest unsigned word. -/
def wordLimit : Nat := wordCount 64 - 1

/-- As many digits as can be appended to a number within an unsigned word, and how many are
left. -/
def takeDigits (value : Nat) : List Nat → Nat × Nat
  | [] => (value, 0)
  | digit :: rest =>
    if wordLimit < 10 * value + digit then (value, rest.length + 1)
    else takeDigits (10 * value + digit) rest

/-- A whole number times a power of ten, in steps of at most `10 ^ 308` that are each rounded;
nothing where a step overflows. -/
def scaleBy? (x : Binary64) (power : Int) : Option Binary64 :=
  if 0 ≤ power then
    if 308 < power then (if x.isZero then some x else none)
    else
      let y := x.multiply (Binary64.ofScaled false 1 power)
      if y.isFinite then some y else none
  else if -308 ≤ power then some (x.divide (Binary64.ofScaled false 1 (-power)))
  else
    let y := x.divide (Binary64.ofScaled false 1 308)
    if y.isZero then some y
    else if -616 ≤ power then some (y.divide (Binary64.ofScaled false 1 (-power - 308)))
    else some ((y.divide (Binary64.ofScaled false 1 308)).divide (Binary64.ofScaled false 1 308))

/-- The floating-point number that a numeral is read as. -/
def scaled? (n : Numeral) : Option Binary64 :=
  let (significand, dropped) := takeDigits 0 n.whole
  let fraction := n.fraction.getD []
  let (significand, left) := takeDigits significand fraction
  let power := (n.power.getD 0) + dropped - (fraction.length - left : Nat)
  if significand = 0 then some (Binary64.zero n.negative)
  else (scaleBy? (Binary64.nearest n.negative significand 1) power)

/-- The number that a numeral is read as. -/
def number? (n : Numeral) : Option Document :=
  if n.isWhole && fitsWord n.toInt && !(n.negative && n.toInt == 0) then some (.int n.toInt)
  else (scaled? n).map .float

def isNumeralChar (c : Char) : Bool :=
  c.isDigit || c == '-' || c == '+' || c == '.' || c == 'e' || c == 'E'

/-! ### Texts -/

def isHighSurrogate (n : Nat) : Bool := 0xD800 ≤ n && n < 0xDC00

def isLowSurrogate (n : Nat) : Bool := 0xDC00 ≤ n && n < 0xE000

/-- The character that a single escape letter stands for. -/
def escaped? : Char → Option Char
  | '"' => some '"'
  | '\\' => some '\\'
  | '/' => some '/'
  | 'b' => some '\x08'
  | 'f' => some '\x0c'
  | 'n' => some '\n'
  | 'r' => some '\r'
  | 't' => some '\t'
  | _ => none

/-- The character that one or two escapes of four digits stand for, and whether the second is
needed. -/
def unit? (first : Nat) (second : Option Nat) : Option (Char × Bool) :=
  if isLowSurrogate first then none
  else if isHighSurrogate first then
    match second with
    | some low =>
      if isLowSurrogate low then
        some (Char.ofNat (0x10000 + (first - 0xD800) * 0x400 + (low - 0xDC00)), true)
      else none
    | none => none
  else some (Char.ofNat first, false)

/-! ### Policies -/

/-- What a reader makes of a numeral, and of one or two escapes of four digits. -/
structure Policy where
  number? : Numeral → Option Document
  unit? : Nat → Option Nat → Option (Char × Bool)

/-- Reads what numerals and escapes stand for. -/
def Policy.meaning : Policy := ⟨Json.number?, Json.unit?⟩

/-- Takes every numeral and every escape, and makes nothing of them. -/
def Policy.grammar : Policy := ⟨fun _ => some .null, fun _ _ => some ('\uFFFD', false)⟩

/-! ### Texts between quotes -/

/-- The characters of a text up to its closing quote, and what follows it. -/
def body (policy : Policy) : List Char → Option (List Char × List Char)
  | [] => none
  | '"' :: rest => some ([], rest)
  | '\\' :: 'u' :: a :: b :: c :: d :: '\\' :: 'u' :: e :: f :: g :: h :: rest => do
    let first ← ofRadix? 16 [a, b, c, d]
    let second := if isHighSurrogate first then ofRadix? 16 [e, f, g, h] else none
    let (unit, paired) ← policy.unit? first second
    if paired then
      let (cs, last) ← body policy rest
      some (unit :: cs, last)
    else
      let (cs, last) ← body policy ('\\' :: 'u' :: e :: f :: g :: h :: rest)
      some (unit :: cs, last)
  | '\\' :: 'u' :: a :: b :: c :: d :: rest => do
    let first ← ofRadix? 16 [a, b, c, d]
    let (unit, _) ← policy.unit? first none
    let (cs, last) ← body policy rest
    some (unit :: cs, last)
  | '\\' :: c :: rest => do
    let unit ← escaped? c
    let (cs, last) ← body policy rest
    some (unit :: cs, last)
  | c :: rest => do
    if c.toNat < 0x20 then none
    else
      let (cs, last) ← body policy rest
      some (c :: cs, last)

theorem length_body {policy : Policy} {cs : List Char} : ∀ {s rest : List Char},
    body policy cs = some (s, rest) → rest.length < cs.length := by
  fun_induction body policy cs with
  | case1 => simp
  | case2 rest => simp
  | case3 a b c d e f g h rest ih1 ih2 =>
    intro s last hs
    simp only [Option.bind_eq_bind, Option.bind_eq_some_iff] at hs
    obtain ⟨first, -, ⟨unit, paired⟩, -, hs⟩ := hs
    cases paired with
    | true =>
      simp only [if_true, Option.bind_eq_some_iff] at hs
      obtain ⟨⟨cs, tail⟩, hb, hs⟩ := hs
      obtain ⟨-, rfl⟩ := Prod.mk.inj (Option.some.inj hs)
      have := ih1 hb
      simp only [List.length_cons]
      omega
    | false =>
      simp only [Bool.false_eq_true, if_false, Option.bind_eq_some_iff] at hs
      obtain ⟨⟨cs, tail⟩, hb, hs⟩ := hs
      obtain ⟨-, rfl⟩ := Prod.mk.inj (Option.some.inj hs)
      have := ih2 hb
      simp only [List.length_cons] at *
      omega
  | case4 a b c d rest _ ih =>
    intro s last hs
    simp only [Option.bind_eq_bind, Option.bind_eq_some_iff] at hs
    obtain ⟨first, -, ⟨unit, paired⟩, -, ⟨cs, tail⟩, hb, hs⟩ := hs
    obtain ⟨-, rfl⟩ := Prod.mk.inj (Option.some.inj hs)
    have := ih hb
    simp only [List.length_cons]
    omega
  | case5 c rest _ _ ih =>
    intro s last hs
    simp only [Option.bind_eq_bind, Option.bind_eq_some_iff] at hs
    obtain ⟨unit, -, ⟨cs, tail⟩, hb, hs⟩ := hs
    obtain ⟨-, rfl⟩ := Prod.mk.inj (Option.some.inj hs)
    have := ih hb
    simp only [List.length_cons]
    omega
  | case6 c rest _ _ _ _ hc => simp
  | case7 c rest _ _ _ _ hc ih =>
    intro s last hs
    simp only [Option.bind_eq_bind, Option.bind_eq_some_iff] at hs
    obtain ⟨⟨cs, tail⟩, hb, hs⟩ := hs
    obtain ⟨-, rfl⟩ := Prod.mk.inj (Option.some.inj hs)
    have := ih hb
    simp only [List.length_cons]
    omega

/-- A text between quotes. -/
def string (policy : Policy) : Reader String
  | '"' :: rest =>
    match h : body policy rest with
    | none => none
    | some (s, last) => some (String.ofList s, ⟨last, Nat.lt_succ_of_lt (length_body h)⟩)
  | _ => none

/-! ### Documents -/

/-- An entry of a table; `value` reads what stands under a name. -/
def entry (policy : Policy) (value : String → Reader Document) :
    Reader (String × Document) := fun cs => do
  let (name, rest) ← string policy cs
  match h : (skip rest.1).1 with
  | ':' :: tail =>
    let (doc, last) ← value name (skip tail).1
    some ((name, doc), ⟨last.1, by
      have hname := rest.2
      have hskip := (skip rest.1).2
      have htail := (skip tail).2
      have hlast := last.2
      rw [h, List.length_cons] at hskip
      omega⟩)
  | _ => none

/-- A document that is neither a list nor a table. -/
def single (policy : Policy) : Reader Document
  | 'n' :: 'u' :: 'l' :: 'l' :: rest => some (.null, ⟨rest, by simp only [List.length_cons]; omega⟩)
  | 't' :: 'r' :: 'u' :: 'e' :: rest =>
    some (.bool true, ⟨rest, by simp only [List.length_cons]; omega⟩)
  | 'f' :: 'a' :: 'l' :: 's' :: 'e' :: rest =>
    some (.bool false, ⟨rest, by simp only [List.length_cons]; omega⟩)
  | '"' :: rest => (string policy ('"' :: rest)).map fun (s, last) => (.text s, last)
  | cs => do
    let (token, rest) ← Reader.run isNumeralChar cs
    let doc ← policy.number? (← numeral? token)
    some (doc, rest)

/-- A document with at most `depth` lists and tables inside each other. -/
def value (policy : Policy) : Nat → Reader Document
  | 0 => single policy
  | depth + 1 => fun cs =>
    match cs with
    | '[' :: rest => do
      let (items, last) ← Reader.items skip false (value policy depth) ']' rest
      some (.list items, last.widen (Nat.le_succ _))
    | '\x7b' :: rest => do
      let (entries, last) ←
        Reader.items skip false (entry policy fun _ => value policy depth) '\x7d' rest
      some (.table entries, last.widen (Nat.le_succ _))
    | cs => single policy cs

/-- The value of a field of a record, passed over if the record has no field of the name. -/
def field (names : List String) (name : String) : Reader Document := fun cs =>
  if names.contains name then value .meaning (depthLimit - 1) cs else value .grammar cs.length cs

/-- A record with fields of the given names. -/
def record (names : List String) : Reader Document
  | '\x7b' :: rest => do
    let (entries, last) ← Reader.items skip false (entry .meaning (field names)) '\x7d' rest
    some (.table entries, last.widen (Nat.le_succ _))
  | cs => value .meaning depthLimit cs

/-- What a reader takes from a text that holds nothing else. -/
def whole? (reader : Reader Document) (cs : List Char) : Option Document := do
  let (doc, rest) ← reader (skip cs).1
  if (skip rest.1).1.isEmpty then some doc else none

/-- The document that a text writes in full. -/
def read? (cs : List Char) : Option Document :=
  whole? (value .meaning depthLimit) cs

/-- The record that a text writes in full. -/
def readRecord? (names : List String) (cs : List Char) : Option Document :=
  whole? (record names) cs

end ContainerCommand.Json
