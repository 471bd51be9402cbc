import Tftp.Storage

/-!
# A scripted storage

A storage that behaves as it is told: it hands out one content, in pieces of at most a given size,
fails where it is told to fail, and keeps a record of every call. It is the storage to rehearse
transfers with, as every way in which a storage can behave towards one transfer can be scripted.
-/

namespace Tftp

/-- How a scripted storage behaves. -/
structure Scripted where
  /-- What every file contains. -/
  content : Bytes := []
  /-- The size reported for a file. -/
  size : Option UInt64 := none
  /-- The most bytes that one read returns. -/
  chunk : Option Nat := none
  /-- Opening yields nothing. -/
  absent : Bool := false
  /-- Finishing and aborting go unnoticed. -/
  writesOnly : Bool := false
  /-- Opening fails. -/
  openFailure : Option Failure := none
  /-- Reading fails at this position. -/
  failReadAt : Option Nat := none
  /-- The write with this number fails, counted from zero. -/
  failWrite : Option Nat := none
  /-- Finishing fails. -/
  failFinish : Bool := false
  /-- How reading, writing and finishing fail. -/
  failure : Failure := .other []

namespace Scripted

/-- A file being read: how far, and what is left. -/
structure Reader where
  position : Nat
  rest : Bytes

/-- A file being written: how many blocks so far. -/
structure Writer where
  blocks : Nat

/-- Opens a file, unless it is to fail or to yield nothing. -/
def opened {α : Type} (script : Scripted) (event : Event) (file : α) : Effect Unit (Option α) :=
  fun state =>
    { state, events := [event]
      result := match script.openFailure with
        | some failure => .error failure
        | none => .ok (if script.absent then none else some file) }

/-- Reads on, up to the position where reading fails. -/
def read (script : Scripted) (n : Nat) : Effect (Unit × Reader) Bytes := fun (state, reader) =>
  let n := match script.chunk with
    | some chunk => min n chunk
    | none => n
  let advance (n : Nat) : Answer (Unit × Reader) Bytes :=
    let bytes := reader.rest.take n
    { result := .ok bytes
      state := (state, ⟨reader.position + bytes.length, reader.rest.drop n⟩) }
  match script.failReadAt with
  | none => advance n
  | some k =>
    if k ≤ reader.position then { result := .error script.failure, state := (state, reader) }
    else advance (min n (k - reader.position))

/-- Takes a block, unless it is the one that fails. -/
def write (script : Scripted) (bytes : Bytes) : Effect (Unit × Writer) Unit :=
  fun (state, writer) =>
    if script.failWrite = some writer.blocks then
      { result := .error script.failure, state := (state, writer), events := [.notWritten] }
    else
      { result := .ok (), state := (state, ⟨writer.blocks + 1⟩), events := [.written bytes] }

/-- Finishes, unless that is to fail. -/
def finish (script : Scripted) : Effect (Unit × Writer) Unit := fun state =>
  if script.writesOnly then { result := .ok (), state }
  else if script.failFinish then
    { result := .error script.failure, state, events := [.notFinished] }
  else { result := .ok (), state, events := [.finished] }

/-- Gives a file up. -/
def abort (script : Scripted) : Effect (Unit × Writer) Unit := fun state =>
  { result := .ok (), state, events := if script.writesOnly then [] else [.aborted] }

/-- The storage that follows a script. -/
def storage (script : Scripted) : Storage where
  State := Unit
  Reader := Reader
  Writer := Writer
  openForReading peer filename :=
    script.opened (.openedForReading peer filename) (⟨0, script.content⟩, script.size)
  read := script.read
  openForWriting peer filename declared :=
    script.opened (.openedForWriting peer filename declared) ⟨0⟩
  write := script.write
  finish := script.finish
  abort := script.abort

end Scripted

end Tftp
