import ContainerCommand.Host.Disk
import ContainerCommand.Shell.Signal
import ContainerCommand.Text.Narrow

/-! What processes share.

Every process has streams of its own, but what they lead to is shared: an open file has one
place where reading and writing go on, and a channel takes bytes at one end and gives them at
the other. Open files and channels are only ever added, so a number stays good. A channel may
have little room; whoever writes more is stopped there, and whoever then asks for more than has
been written leaves a note (`isShort`), so that the writer can be run again with more room. -/
namespace ContainerCommand.Shell
open Host

structure Channel where
  /-- What has been written, the last first. -/
  written : List (List UInt8) := []
  size : Nat := 0
  /-- How many bytes may be written, if there is a limit. -/
  room : Option Nat := none
  /-- What can be read. -/
  unread : List UInt8 := []
  /-- Whether a writer has been stopped. -/
  isCut : Bool := false
  /-- Whether a reader has asked for more than a stopped writer has written. -/
  isShort : Bool := false

instance : Inhabited Channel := ⟨{}⟩

def Channel.content (c : Channel) : List UInt8 := c.written.reverse.flatten

/-- What an open file leads to. -/
inductive Medium where
  | sink
  /-- A device without room. -/
  | full
  | directory
  | file (place : Location)
  | channel (number : Nat)
deriving DecidableEq

structure OpenFile where
  medium : Medium
  canRead : Bool := true
  canWrite : Bool := true
  /-- Whether all that is written goes to the end. -/
  appends : Bool := false
  /-- How many bytes are before the place where reading and writing go on. -/
  offset : Nat := 0

/-- How a process has ended. -/
inductive Ended where
  | exited (code : Nat)
  | killed (signal : Nat)
deriving DecidableEq

/-- The status that a shell gives to such an end. -/
def Ended.status : Ended → Nat
  | .exited code => code
  | .killed signal => 128 + signal

structure World where
  disk : Disk
  files : Array OpenFile := #[]
  channels : Array Channel := #[]
  /-- The signals that have come, each with the number of its process. -/
  signals : List (Nat × Nat) := []
  /-- The processes that have not ended. -/
  processes : List Nat := [1, 4241, 4242]
  /-- The number of the process that was started last. -/
  lastProcess : Nat := 4242

/-- Why bytes cannot be written. -/
inductive WriteFault where
  | closed
  | noSpace
  /-- A channel has no room, and nobody reads yet. -/
  | stopped
deriving DecidableEq

def WriteFault.reason : WriteFault → String
  | .closed => "Bad file descriptor"
  | .noSpace => "No space left on device"
  | .stopped => "Broken pipe"

/-- Why bytes cannot be read. -/
inductive ReadFault where
  | closed
  | directory
deriving DecidableEq

def ReadFault.reason : ReadFault → String
  | .closed => "Bad file descriptor"
  | .directory => "Is a directory"

namespace World

/-- Starts a process, and gives its number. -/
def addProcess (w : World) : World × Nat :=
  let number := w.lastProcess + 1
  ({ w with lastProcess := number, processes := number :: w.processes }, number)

/-- Ends a process. -/
def dropProcess (w : World) (number : Nat) : World :=
  { w with
    processes := w.processes.filter (· != number)
    signals := w.signals.filter (·.2 != number) }

/-- Adds an open file, and gives its number. -/
def addFile (w : World) (f : OpenFile) : World × Nat :=
  ({ w with files := w.files.push f }, w.files.size)

/-- Adds a channel, and gives its number. -/
def addChannel (w : World) (c : Channel) : World × Nat :=
  ({ w with channels := w.channels.push c }, w.channels.size)

def setOffset (w : World) (number offset : Nat) : World :=
  { w with files := w.files.modify number ({ · with offset }) }

/-- The bytes of the file at a place. -/
def contentAt (w : World) (place : Location) : List UInt8 :=
  match w.disk.at? place with
  | some (.file content) => content
  | _ => []

/-- Bytes with others written over them from an offset on. -/
def overwrite (content : List UInt8) (offset : Nat) (bytes : List UInt8) : List UInt8 :=
  if content.length = offset then content ++ bytes
  else
    content.take offset ++ List.replicate (offset - content.length) 0 ++ bytes ++
      content.drop (offset + bytes.length)

/-- Writes bytes to an open file. -/
def write (w : World) (number : Nat) (bytes : List UInt8) : World × Option WriteFault :=
  match w.files[number]? with
  | none => (w, some .closed)
  | some f =>
    if !f.canWrite then (w, some .closed)
    else
      match f.medium with
      | .sink => (w, none)
      | .full => (w, if bytes.isEmpty then none else some .noSpace)
      | .directory => (w, some .closed)
      | .file place =>
        let content := w.contentAt place
        let offset := if f.appends then content.length else f.offset
        let disk := w.disk.put place (.file (overwrite content offset bytes))
        ({ w with disk }.setOffset number (offset + bytes.length), none)
      | .channel c =>
        let channel := w.channels[c]?.getD {}
        let own := match channel.room with
          | some room => bytes.take (room - channel.size)
          | none => bytes
        let isCut := own.length < bytes.length
        let channel := { channel with
          written := own :: channel.written
          size := channel.size + own.length
          isCut := channel.isCut || isCut }
        ({ w with channels := w.channels.setIfInBounds c channel },
          if isCut then some .stopped else none)

/-- All that can still be read from an open file. -/
def rest (w : World) (number : Nat) : Except ReadFault (List UInt8) :=
  match w.files[number]? with
  | none => .error .closed
  | some f =>
    if !f.canRead then .error .closed
    else
      match f.medium with
      | .sink => .ok []
      | .full => .ok []
      | .directory => .error .directory
      | .file place => .ok ((w.contentAt place).drop f.offset)
      | .channel c => .ok (w.channels[c]?.getD {}).unread

/-- Passes bytes of an open file. Whoever asks for more than there is (`isAll`) may leave a note. -/
def advance (w : World) (number count : Nat) (isAll : Bool) : World :=
  match w.files[number]? with
  | some f =>
    match f.medium with
    | .file _ => w.setOffset number (f.offset + count)
    | .channel c =>
      { w with channels := w.channels.modify c fun channel => { channel with
          unread := channel.unread.drop count
          isShort := channel.isShort || (isAll && channel.isCut) } }
    | _ => w
  | none => w

/-- Adds an open file from which a text is read. -/
def addText (w : World) (bytes : List UInt8) : World × Nat :=
  let (w, c) := w.addChannel { unread := bytes }
  w.addFile { medium := .channel c, canWrite := false }

end World

end ContainerCommand.Shell
