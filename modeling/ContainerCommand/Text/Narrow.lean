import ContainerCommand.Text.Utf8

/-! Narrow texts.

A text is narrow if each of its characters stands for the byte of its own number. What deals
in bytes works on narrow texts as on any others. A narrow text is made by writing a text out
(`narrow`), and is read again by whoever looks at it (`widen`). -/
namespace ContainerCommand.Text

/-- The characters that stand for some bytes. -/
def charsOfBytes (bytes : List UInt8) : List Char :=
  bytes.map fun b => Char.ofNat b.toNat

/-- The bytes that characters stand for. -/
def bytesOfChars (cs : List Char) : List UInt8 :=
  cs.map fun c => UInt8.ofNat c.toNat

def ofBytes (bytes : List UInt8) : String :=
  String.ofList (charsOfBytes bytes)

def toBytes (s : String) : List UInt8 :=
  bytesOfChars s.toList

/-- The narrow text of what a text is written as. -/
def narrow (s : String) : String :=
  ofBytes (encode s)

/-- What somebody reads in a narrow text. -/
def widen (s : String) : String :=
  decodeLossy (toBytes s)

end ContainerCommand.Text
