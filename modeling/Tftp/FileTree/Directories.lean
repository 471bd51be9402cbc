import Tftp.FileTree

/-!
# Making directories

`FileTree.makeDirectories` makes a directory together with the directories above it that are
missing. What is missing is found on the way up, and made on the way down. The steps `.` and `..` of
a path stand for no directory of their own, so nothing is made for them.
-/

namespace Tftp.FileTree

/-- The most directories that are made at once. -/
def maxMade : Nat := 1000

def pathOf (absolute : Bool) (names : List Bytes) : Bytes :=
  (if absolute then [Path.slash] else []) ++ List.intercalate [Path.slash] names

/-- The paths at which a directory has to be made, the longest first, for a path given by its names
in reverse. -/
def missingAbove (tree : FileTree) (absolute : Bool) : Nat → List Bytes → Except Errno (List Bytes)
  | _, [] => return []
  | room, name :: above => do
    let path := pathOf absolute (name :: above).reverse
    let isStep := name = Path.here ∨ name = Path.above
    let room ←
      if isStep then pure room
      else match room with
        | 0 => throw .enametoolong
        | room + 1 => pure room
    let paths ←
      if above = [] then pure []
      else match ← tree.status (pathOf absolute above.reverse) with
        | some (_, .directory) => pure []
        | some _ => throw .enotdir
        | none => missingAbove tree absolute room above
    return if isStep then paths else path :: paths

/-- Makes directories one after the other. Also says why the last one was not made; if it was there
already, that is no error. -/
def makeEach (tree : FileTree) (last : Option Errno) : List Bytes → FileTree × Option Errno
  | [] => (tree, last)
  | path :: paths =>
    match tree.makeDirectory path with
    | .ok tree => makeEach tree none paths
    | .error errno =>
      if errno = .eexist ∧ tree.isDirectory path then makeEach tree (some .success) paths
      else (tree, some errno)

/-- Makes a directory and those above it that are missing. Also says why it was not made; if it was
there already, that is no error. -/
def makeDirectories (tree : FileTree) (path : Bytes) : FileTree × Option Errno :=
  if path = [] then (tree, some .einval)
  else match tree.status path with
    | .error errno => (tree, some errno)
    | .ok (some (_, .directory)) => (tree, some .success)
    | .ok (some _) => (tree, some .enotdir)
    | .ok none =>
      match missingAbove tree (Path.isAbsolute path) maxMade (Path.names path).reverse with
      | .error errno => (tree, some errno)
      | .ok paths => makeEach tree none paths.reverse

end Tftp.FileTree
