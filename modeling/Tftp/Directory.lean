import Tftp.FileTree.Directories
import Tftp.FileTree.Stream

/-!
# Serving a directory

A `Directory` is a storage that gives clients access to the files below its root. `Directory.make`
opens one, and makes the root directory if it is missing.

A file name is refused if it starts at the root of the tree or contains `..`, and also if it leads
out of the root directory when symbolic links are followed as far as there is something. A file that
a client writes must not exist, and if the client has declared its size there must be room for it.
-/

namespace Tftp

/-- How much can be stored on a disk. -/
structure Space where
  /-- Bytes in a block. -/
  blockSize : UInt64
  /-- Blocks that are free. -/
  available : UInt64
  deriving DecidableEq, Repr

/-- A tree of files, and how much more can be stored there, if that is known. -/
structure Disk where
  tree : FileTree
  space : Option Space

namespace Disk

/-- Whether there is room for so many bytes. If that cannot be told, there is none. The product is
one of 64-bit words. -/
def hasRoom (disk : Disk) (size : UInt64) : Bool :=
  match disk.space with
  | some space => size ≤ space.blockSize * space.available
  | none => false

/-- An operation on the tree, as one on the disk. -/
def onTree {α : Type} (effect : Effect FileTree α) : Effect Disk α := fun disk =>
  let answer := effect disk.tree
  { result := answer.result, state := { disk with tree := answer.state }, events := answer.events }

/-- An operation on an open file, as one on a file of the disk. -/
def onFile {φ α : Type} (effect : Effect (FileTree × φ) α) : Effect (Disk × φ) α :=
  fun (disk, file) =>
    let answer := effect (disk.tree, file)
    { result := answer.result
      state := ({ disk with tree := answer.state.1 }, answer.state.2)
      events := answer.events }

end Disk

/-- What clients may do. -/
inductive Access
  | readWrite
  | readOnly
  | writeOnly
  deriving DecidableEq, Repr

/-- A directory whose files clients have access to. -/
structure Directory where
  root : Bytes
  access : Access
  deriving DecidableEq, Repr

namespace Directory

/-- A directory with the given root, which is made if it is missing. -/
def make (root : Bytes) (access : Access) : Effect Disk Directory := fun disk =>
  let directory : Directory := { root, access }
  if disk.tree.isThere root then
    if disk.tree.isDirectory root then .pure directory disk
    else .fail (.other (root ++ ascii " is not a directory")) disk
  else
    let (tree, problem) := disk.tree.makeDirectories root
    let disk := { disk with tree }
    match problem with
    | none =>
      { result := .ok directory, state := disk, events := [.logged (.rootCreated root)] }
    | some errno =>
      .fail (.other (ascii "Failed to create directory " ++ root ++ ascii ": " ++ errno.message))
        disk

/-- Whether a path, given by its elements, is that of a directory or leads into it. -/
def isWithin (root path : List Bytes) : Bool := root.isPrefixOf path

/-- Whether a path of the tree does not lead out of the root directory. -/
def contains (directory : Directory) (tree : FileTree) (path : Bytes) : Bool :=
  match tree.canonical directory.root, tree.canonical path with
  | .ok root, .ok path => isWithin root path
  | _, _ => false

/-- The path of a file that a client has named, unless it is refused. -/
def locate (directory : Directory) (filename : Bytes) (tree : FileTree) : Except Failure Bytes :=
  let path := Path.join directory.root filename
  if Path.isAbsolute filename ∨ Path.above ∈ Path.names filename then
    .error (.transfer .accessViolation)
  else if !directory.contains tree path then .error (.transfer .accessViolation)
  else .ok path

def openForReading (directory : Directory) (peer : Address) (filename : Bytes) :
    Effect Disk (FileReader × Option UInt64) := fun disk =>
  if directory.access = .writeOnly then .fail (.transfer .readingNotAllowed) disk
  else match directory.locate filename disk.tree with
    | .error failure => .fail failure disk
    | .ok path =>
      match disk.tree.file? path with
      | none => .fail (.transfer .fileNotFound) disk
      | some id =>
        let size := UInt64.ofNat (disk.tree.content id).length
        { result := .ok ({ id := some id }, some size)
          state := disk
          events := [.logged (.opening peer path)] }

def openForWriting (directory : Directory) (peer : Address) (filename : Bytes)
    (declared : Option UInt64) : Effect Disk FileWriter := fun disk =>
  if directory.access = .readOnly then .fail (.transfer .writingNotAllowed) disk
  else match directory.locate filename disk.tree with
    | .error failure => .fail failure disk
    | .ok path =>
      if disk.tree.isThere path then .fail (.transfer .fileExists) disk
      else if declared.any fun size => !disk.hasRoom size then .fail (.transfer .diskFull) disk
      else
        { Disk.onTree (FileWriter.make path) disk with events := [.logged (.opening peer path)] }

def storage (directory : Directory) : Storage where
  State := Disk
  Reader := FileReader
  Writer := FileWriter
  openForReading peer filename disk :=
    let answer := directory.openForReading peer filename disk
    { answer with result := answer.result.map some }
  read n := Disk.onFile (FileReader.read n)
  openForWriting peer filename declared disk :=
    let answer := directory.openForWriting peer filename declared disk
    { answer with result := answer.result.map some }
  write bytes := Disk.onFile (FileWriter.write bytes)
  finish := Disk.onFile FileWriter.finish
  abort := Disk.onFile FileWriter.abort

end Directory

end Tftp
