/-! Keeping the start of a stream.

A stream is read to its end in chunks. Bytes are kept up to a limit, and those beyond it
are counted: together they are the stream, however it is cut into chunks. -/
namespace ContainerCommand.Invocation

/-- What has been kept of a stream, and how many bytes have not. -/
structure Capture where
  kept : List UInt8 := []
  dropped : Nat := 0
deriving DecidableEq

namespace Capture

/-- Takes as much of a chunk as there is room for. -/
def add (limit : Nat) (capture : Capture) (chunk : List UInt8) : Capture :=
  let room := limit - capture.kept.length
  { kept := capture.kept ++ chunk.take room
    dropped := capture.dropped + (chunk.length - room) }

/-- Reads chunks up to the first that is empty. -/
def read (limit : Nat) (capture : Capture) : List (List UInt8) → Capture
  | [] => capture
  | [] :: _ => capture
  | chunk :: rest => read limit (capture.add limit chunk) rest

/-- The size of the largest chunk that is read at a time. -/
def chunkSize : Nat := 8192

/-- The bytes of a stream in chunks. -/
def chunks (bytes : List UInt8) : List (List UInt8) :=
  match bytes with
  | [] => []
  | b :: rest => (b :: rest).take chunkSize :: chunks ((b :: rest).drop chunkSize)
termination_by bytes.length
decreasing_by simp only [List.length_drop, List.length_cons, chunkSize]; omega

/-- What is kept of a stream. -/
def ofStream (limit : Nat) (bytes : List UInt8) : Capture :=
  read limit {} (chunks bytes)

end Capture

end ContainerCommand.Invocation
