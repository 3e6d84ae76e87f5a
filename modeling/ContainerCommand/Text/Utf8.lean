/-! Bytes and characters.

A byte sequence is cut into characters and faults: a fault is the longest start of a
character at a place where no whole one stands. Text that must be read shows each
fault as one replacement character, and text that must be right has none. -/
namespace ContainerCommand.Text

/-- What the first byte of a character of several bytes asks for: how many bytes follow, its own
share of the value, and the range of the next byte. -/
structure Lead where
  count : Nat
  share : Nat
  least : Nat
  greatest : Nat

/-- The demands of a first byte, if a character of several bytes can start with it. -/
def lead? (b : Nat) : Option Lead :=
  if 0xC2 ≤ b ∧ b ≤ 0xDF then some ⟨1, b - 0xC0, 0x80, 0xBF⟩
  else if b = 0xE0 then some ⟨2, 0, 0xA0, 0xBF⟩
  else if b = 0xED then some ⟨2, 13, 0x80, 0x9F⟩
  else if 0xE1 ≤ b ∧ b ≤ 0xEF then some ⟨2, b - 0xE0, 0x80, 0xBF⟩
  else if b = 0xF0 then some ⟨3, 0, 0x90, 0xBF⟩
  else if b = 0xF4 then some ⟨3, 4, 0x80, 0x8F⟩
  else if 0xF1 ≤ b ∧ b ≤ 0xF3 then some ⟨3, b - 0xF0, 0x80, 0xBF⟩
  else none

/-- Reads the bytes that follow a first one, and stops in front of one that does not fit. -/
def follow : Nat → Nat → Nat → Nat → List UInt8 → Option Nat × List UInt8
  | 0, value, _, _, bytes => (some value, bytes)
  | _ + 1, _, _, _, [] => (none, [])
  | n + 1, value, least, greatest, b :: bytes =>
    if least ≤ b.toNat ∧ b.toNat ≤ greatest then
      follow n (64 * value + (b.toNat - 0x80)) 0x80 0xBF bytes
    else (none, b :: bytes)

theorem length_follow_le (n value least greatest : Nat) (bytes : List UInt8) :
    (follow n value least greatest bytes).2.length ≤ bytes.length := by
  fun_induction follow n value least greatest bytes <;> simp_all
  omega

/-- The characters of a byte sequence, nothing in place of each fault. -/
def decodeEach (bytes : List UInt8) : List (Option Char) :=
  match bytes with
  | [] => []
  | b :: rest =>
    if b.toNat < 0x80 then some (Char.ofNat b.toNat) :: decodeEach rest
    else
      match lead? b.toNat with
      | none => none :: decodeEach rest
      | some lead =>
        let read := follow lead.count lead.share lead.least lead.greatest rest
        have := length_follow_le lead.count lead.share lead.least lead.greatest rest
        read.1.map Char.ofNat :: decodeEach read.2
termination_by bytes.length
decreasing_by
  · simp
  · simp
  · simp only [List.length_cons]
    omega

/-- The text of a byte sequence without faults. -/
def decode? (bytes : List UInt8) : Option String :=
  ((decodeEach bytes).mapM id).map String.ofList

/-- The text of a byte sequence with a replacement character in place of each fault. -/
def decodeLossy (bytes : List UInt8) : String :=
  String.ofList ((decodeEach bytes).map (·.getD '\uFFFD'))

/-- The bytes of a text. -/
def encode (s : String) : List UInt8 :=
  s.toList.flatMap String.utf8EncodeChar

end ContainerCommand.Text
