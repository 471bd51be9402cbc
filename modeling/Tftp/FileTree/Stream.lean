import Tftp.FileTree
import Tftp.Storage

/-!
# Open files

A file is read and written through a buffer. What is written may reach the file later than it was
written, at the latest when the file is closed, but large pieces reach it at once. An open file
stays open when its entry is removed.

A reader that has come to the end of its file once stays there. A directory can be opened for
reading, but reading from it fails, and does so from then on.
-/

namespace Tftp

/-- The number of bytes that are read or written at a time. -/
def streamBuffer : Nat := 8191

/-- The number of bytes from which on a write does not wait in the buffer, however empty it is. -/
def directWrite : Nat := 1024

/-- How well it goes with a file being read. -/
inductive ReaderState
  | good
  | ended
  | broken
  deriving DecidableEq, Repr

/-- A file open for reading. -/
structure FileReader where
  /-- The file; a directory has none. -/
  id : Option Nat
  /-- How much of the file has been read into the buffer. -/
  offset : Nat := 0
  /-- What has been read but not been asked for. -/
  buffer : Bytes := []
  state : ReaderState := .good
  deriving DecidableEq, Repr

namespace FileReader

/-- Opens what a path stands for. -/
def make (path : Bytes) : Effect FileTree FileReader := fun tree =>
  match tree.status path with
  | .ok (some (_, .file id)) => .pure { id := some id } tree
  | .ok (some _) => .pure { id := none } tree
  | _ => .fail (.transfer .accessViolation) tree

/-- Reads at most so many bytes, which are fewer only at the end of the file. -/
def read (n : Nat) : Effect (FileTree × FileReader) Bytes := fun (tree, reader) =>
  let failed : Failure := .other (ascii "Failed to read data from file")
  match reader.state with
  | .broken => .fail failed (tree, reader)
  | .ended => .pure [] (tree, reader)
  | .good =>
    let ready := reader.buffer.take n
    if ready.length = n then .pure ready (tree, { reader with buffer := reader.buffer.drop n })
    else match reader.id with
      | none => .fail failed (tree, { reader with state := .broken })
      | some id =>
        let missing := n - ready.length
        let wanted := if streamBuffer < n then missing else streamBuffer
        let fetched := tree.slice id reader.offset wanted
        let state := if fetched.length < missing then ReaderState.ended else .good
        .pure (ready ++ fetched.take missing) (tree,
          { reader with
            offset := reader.offset + fetched.length, buffer := fetched.drop missing, state })

end FileReader

/-- How well it goes with a file being written. -/
inductive WriterState
  | good
  | closed
  | broken
  deriving DecidableEq, Repr

/-- A file open for writing. -/
structure FileWriter where
  /-- The path under which the file was opened. -/
  path : Bytes
  /-- The file. -/
  id : Nat
  /-- How much has reached the file. -/
  offset : Nat := 0
  /-- What has been written but has not reached the file. -/
  pending : Bytes := []
  state : WriterState := .good
  deriving DecidableEq, Repr

namespace FileWriter

/-- Makes the file that a path stands for, or empties it. -/
def make (path : Bytes) : Effect FileTree FileWriter := fun tree =>
  match tree.create path with
  | .ok (tree, id) => .pure { path, id } tree
  | .error _ => .fail (.transfer .accessViolation) tree

/-- Lets bytes reach the file after what is pending. -/
def flush (tree : FileTree) (writer : FileWriter) (bytes : Bytes) : FileTree × FileWriter :=
  let bytes := writer.pending ++ bytes
  (tree.write writer.id writer.offset bytes,
    { writer with offset := writer.offset + bytes.length, pending := [] })

/-- Closes the file; closing it twice is an error. -/
def close (tree : FileTree) (writer : FileWriter) : FileTree × FileWriter :=
  match writer.state with
  | .good =>
    let (tree, writer) := flush tree writer []
    (tree, { writer with state := .closed })
  | _ => (tree, { writer with state := .broken })

/-- The outcome of an operation: a file that is broken has no room. -/
def outcome (state : FileTree × FileWriter) : Answer (FileTree × FileWriter) Unit :=
  if state.2.state = .broken then .fail (.transfer .diskFull) state else .pure () state

/-- Writes some bytes. They wait in the buffer if they are few and leave some room there; otherwise
they reach the file at once, after those that have waited. -/
def write (bytes : Bytes) : Effect (FileTree × FileWriter) Unit := fun (tree, writer) =>
  outcome <| match writer.state with
    | .good =>
      let room := streamBuffer - writer.pending.length
      if min directWrite room ≤ bytes.length then flush tree writer bytes
      else (tree, { writer with pending := writer.pending ++ bytes })
    | .closed => (tree, if bytes = [] then writer else { writer with state := .broken })
    | .broken => (tree, writer)

/-- Ends a file that is complete. -/
def finish : Effect (FileTree × FileWriter) Unit := fun (tree, writer) =>
  outcome (close tree writer)

/-- Ends a file that has remained incomplete, and removes it. -/
def abort : Effect (FileTree × FileWriter) Unit := fun (tree, writer) =>
  let (tree, writer) := close tree writer
  let discarding := Event.logged (.discarding writer.path)
  match tree.remove writer.path with
  | .ok tree => { result := .ok (), state := (tree, writer), events := [discarding] }
  | .error _ =>
    { result := .ok (), state := (tree, writer)
      events := [discarding, .logged (.notDiscarded writer.path)] }

/-- Lets go of a file that may still be open. -/
def drop (tree : FileTree) (writer : FileWriter) : FileTree := (close tree writer).1

end FileWriter

end Tftp
