import Tftp.FileTree.Directories

/-!
# Listings

A listing has the path of everything below the starting directory of a tree, and what there is, in
the order of the paths. `FileTree.listing` reads it off. `FileTree.apply` goes the other way and
brings things into being, with the directories above them; of a `Change` that is not possible, those
directories are all that comes of it.
-/

namespace Tftp

/-- A change to a tree. -/
inductive Change
  /-- Puts something at a path. -/
  | put (path : Bytes) (node : Node)
  /-- Removes what is at a path, with everything below it. -/
  | clear (path : Bytes)
  deriving DecidableEq, Repr

namespace FileTree

/-- The tree with the directory that a path leads into. -/
def withParent (tree : FileTree) (path : Bytes) : FileTree :=
  (tree.makeDirectories (pathOf (Path.isAbsolute path) (Path.names path).dropLast)).1

/-- Performs a change. -/
def apply (tree : FileTree) : Change → FileTree
  | .put path .directory => (tree.makeDirectories path).1
  | .put path (.file content) =>
    let tree := tree.withParent path
    match tree.create path with
    | .ok (tree, id) => tree.write id 0 content
    | .error _ => tree
  | .put path (.link target) =>
    let tree := tree.withParent path
    match tree.makeLink path target with
    | .ok tree => tree
    | .error _ => tree
  | .clear path =>
    match tree.resolve false path with
    | .found location _ => tree.keep fun l => !location.isPrefixOf l
    | _ => tree

/-- Whether one path comes before another, or is the same. -/
def pathLe : Bytes → Bytes → Bool
  | [], _ => true
  | _ :: _, [] => false
  | a :: s, b :: t => a < b || (a == b && pathLe s t)

/-- Everything below the starting directory. -/
def listing (tree : FileTree) : List (Bytes × Node) :=
  let below := tree.entries.filterMap fun (location, _) =>
    if tree.start.isPrefixOf location then
      (tree.node? location).map fun node =>
        (pathOf false (location.drop tree.start.length), node)
    else none
  below.mergeSort fun a b => pathLe a.1 b.1

end FileTree

end Tftp
