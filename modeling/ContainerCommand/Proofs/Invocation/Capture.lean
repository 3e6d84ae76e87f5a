import ContainerCommand.Invocation.Capture
import Mathlib.Data.List.Basic

/-! What is kept of a stream, however it is cut.

A reader hands out a stream in chunks as it likes (`Capture.Cuts`), and ends it with an empty one. What
has been kept and counted after some chunks is said by their bytes alone (`Capture.start`): a chunk
more takes that of the bytes before to that of the bytes with it, whether there is room for all of it,
for its front or for nothing (`Capture.add_start`). So the whole stream is kept up to the limit and
counted from there on. The main statement is `Capture.read_of_cuts`. -/
namespace ContainerCommand.Invocation.Capture

/-- What a limit leaves of some bytes: their start, and the number of the others. -/
def start (limit : Nat) (bytes : List UInt8) : Capture :=
  { kept := bytes.take limit, dropped := bytes.length - limit }

/-- A reader can hand the stream out in these chunks: each is one read, which is neither empty nor
larger than what is read at a time. -/
structure Cuts (chunks : List (List UInt8)) (stream : List UInt8) : Prop where
  flatten : chunks.flatten = stream
  ne_nil : ∀ chunk ∈ chunks, chunk ≠ []
  fits : ∀ chunk ∈ chunks, chunk.length ≤ chunkSize

theorem start_nil (limit : Nat) : start limit [] = {} := by
  simp [start]

/-- **A chunk takes what is known of the bytes before it to what is known of the bytes with it.** -/
theorem add_start (limit : Nat) (bytes chunk : List UInt8) :
    (start limit bytes).add limit chunk = start limit (bytes ++ chunk) := by
  have hroom : limit - (bytes.take limit).length = limit - bytes.length := by
    rw [List.length_take]
    omega
  simp only [add, start, hroom, List.take_append, List.length_append, Capture.mk.injEq, true_and]
  omega

/-- The empty read ends a stream, and nothing behind it is read. -/
theorem read_append_nil (limit : Nat) (capture : Capture) (chunks later : List (List UInt8)) :
    read limit capture (chunks ++ [] :: later) = read limit capture chunks := by
  induction chunks generalizing capture with
  | nil => rfl
  | cons chunk rest ih =>
    cases chunk with
    | nil => rfl
    | cons b chunk => exact ih _

/-- **What is read is said by the bytes alone.** The induction is on the reads; the bytes of those
before are the invariant. -/
theorem read_start (limit : Nat) (bytes : List UInt8) {chunks : List (List UInt8)}
    (h : ∀ chunk ∈ chunks, chunk ≠ []) :
    read limit (start limit bytes) chunks = start limit (bytes ++ chunks.flatten) := by
  induction chunks generalizing bytes with
  | nil =>
    rw [List.flatten_nil, List.append_nil]
    rfl
  | cons chunk rest ih =>
    obtain ⟨hchunk, hrest⟩ := List.forall_mem_cons.mp h
    obtain ⟨b, others, rfl⟩ := List.exists_cons_of_ne_nil hchunk
    rw [List.flatten_cons, ← List.append_assoc]
    show read limit ((start limit bytes).add limit (b :: others)) rest = _
    rw [add_start]
    exact ih (bytes ++ b :: others) hrest

/-- The largest chunks are one way to hand a stream out. -/
theorem cuts_chunks (stream : List UInt8) : Cuts (chunks stream) stream := by
  fun_induction chunks stream with
  | case1 => exact ⟨rfl, by simp, by simp⟩
  | case2 b rest ih =>
    refine ⟨?_, ?_, ?_⟩
    · rw [List.flatten_cons, ih.flatten, List.take_append_drop]
    · exact List.forall_mem_cons.mpr ⟨by simp [chunkSize], ih.ne_nil⟩
    · exact List.forall_mem_cons.mpr ⟨List.length_take_le _ _, ih.fits⟩

/-- **What is kept does not depend on the chunks.** However a stream is handed out up to the first empty
read, its first bytes are kept up to the limit, and the number of the others is counted. -/
theorem read_of_cuts {chunks : List (List UInt8)} {stream : List UInt8} (h : Cuts chunks stream)
    (later : List (List UInt8)) (limit : Nat) :
    read limit {} (chunks ++ [] :: later) =
        { kept := stream.take (min limit stream.length)
          dropped := stream.length - min limit stream.length } ∧
      ofStream limit stream = read limit {} (chunks ++ [] :: later) := by
  have hread : ∀ {chunks}, Cuts chunks stream → read limit {} chunks = start limit stream := by
    intro chunks h
    rw [← start_nil limit, read_start limit [] h.ne_nil, List.nil_append, h.flatten]
  have hstart : start limit stream =
      { kept := stream.take (min limit stream.length)
        dropped := stream.length - min limit stream.length } := by
    rw [start, List.take_eq_take_min]
    congr 1
    omega
  rw [read_append_nil, hread h, ofStream, hread (cuts_chunks stream)]
  exact ⟨hstart, rfl⟩

/-- The limit falls on the end of a chunk, and inside of one; what comes behind the end of the stream
is not read. -/
theorem read_of_cuts_seven :
    let chunks : List (List UInt8) := [[1, 2], [3], [4, 5, 6], [7]]
    Cuts chunks [1, 2, 3, 4, 5, 6, 7] ∧
      read 3 {} (chunks ++ [] :: [[8]]) = ⟨[1, 2, 3], 4⟩ ∧
      read 5 {} (chunks ++ [] :: [[8]]) = ⟨[1, 2, 3, 4, 5], 2⟩ := by
  intro chunks
  have h : Cuts chunks [1, 2, 3, 4, 5, 6, 7] := ⟨rfl, by decide, by decide⟩
  exact ⟨h, (read_of_cuts h [[8]] 3).1, (read_of_cuts h [[8]] 5).1⟩

end ContainerCommand.Invocation.Capture
