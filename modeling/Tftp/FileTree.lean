import Tftp.Errno
import Tftp.Path

/-!
# A tree of files

Directories, files and symbolic links, each at its location: the names that lead to it from the
root. The content of a file is kept apart from its entry, because a file that is open can be read
and written on after its entry is gone. `FileTree.node?` is the view in which trees are compared.

`FileTree.resolve` says where a path leads. It walks down name by name; a symbolic link on the way
is followed, and at most `FileTree.maxLinks` of them. The last name may be missing, so the outcome
is either an entry, or the location at which an entry could be made, or the reason why there is
neither.
-/

namespace Tftp

/-- Where something is: the names that lead to it from the root. -/
abbrev Location := List Bytes

/-- What there is at a location. The content of a file is found by its number. -/
inductive Entry
  | directory
  | file (id : Nat)
  | link (target : Bytes)
  deriving DecidableEq, Repr

/-- What can be seen at a location. -/
inductive Node
  | directory
  | file (content : Bytes)
  | link (target : Bytes)
  deriving DecidableEq, Repr

/-- A tree of files. -/
structure FileTree where
  /-- The directory in which paths start that do not start at the root. It and all directories above
  it are always there. -/
  start : Location := []
  /-- Everything else. -/
  entries : List (Location × Entry) := []
  /-- The contents of all files that there have ever been. -/
  contents : List Bytes := []
  /-- Every file has a content. -/
  filed : ∀ pair ∈ entries, ∀ id, pair.2 = .file id → id < contents.length := by simp

/-- Where a path leads. -/
inductive Resolution
  /-- To this entry. -/
  | found (location : Location) (entry : Entry)
  /-- Into a directory that has no entry of the last name: it would be at this location. -/
  | missing (location : Location)
  /-- Nowhere. -/
  | failed (errno : Errno)
  deriving DecidableEq, Repr

namespace FileTree

/-! ### Entries -/

def entryAt? (tree : FileTree) (location : Location) : Option Entry :=
  if location.isPrefixOf tree.start then some .directory else tree.entries.lookup location

def content (tree : FileTree) (id : Nat) : Bytes := tree.contents.getD id []

/-- What can be seen at a location. -/
def node? (tree : FileTree) (location : Location) : Option Node :=
  (tree.entryAt? location).map fun
    | .directory => .directory
    | .file id => .file (tree.content id)
    | .link target => .link target

/-- The tree with the entries at some locations only. -/
def keep (tree : FileTree) (p : Location → Bool) : FileTree where
  start := tree.start
  entries := tree.entries.filter fun pair => p pair.1
  contents := tree.contents
  filed := fun pair h => tree.filed pair (List.mem_filter.1 h).1

/-- The tree without the entry at a location. -/
def erase (tree : FileTree) (location : Location) : FileTree := tree.keep (· != location)

/-- The tree with an entry at a location. -/
def insert (tree : FileTree) (location : Location) (entry : Entry)
    (h : ∀ id, entry = .file id → id < tree.contents.length := by simp) : FileTree where
  start := tree.start
  entries := (location, entry) :: (tree.erase location).entries
  contents := tree.contents
  filed := by
    intro pair hp
    rcases List.mem_cons.1 hp with rfl | hp
    · exact h
    · exact (tree.erase location).filed pair hp

/-- The tree with the content of a file replaced. -/
def setContent (tree : FileTree) (id : Nat) (content : Bytes) : FileTree where
  start := tree.start
  entries := tree.entries
  contents := tree.contents.set id content
  filed := by simpa using tree.filed

/-- The tree with an empty content for one more file. -/
def extend (tree : FileTree) : FileTree where
  start := tree.start
  entries := tree.entries
  contents := tree.contents ++ [[]]
  filed := fun pair hp id he => by
    have := tree.filed pair hp id he
    simp only [List.length_append, List.length_singleton]
    omega

theorem lookup_filter_ne {α β : Type} [BEq α] [LawfulBEq α] {a b : α} (h : b ≠ a)
    (pairs : List (α × β)) :
    (pairs.filter fun pair => pair.1 != a).lookup b = pairs.lookup b := by
  induction pairs with
  | nil => rfl
  | cons pair pairs ih =>
    obtain ⟨c, v⟩ := pair
    by_cases hca : c = a
    · have hbc : b ≠ c := hca ▸ h
      simp [hca, ih, List.lookup_cons, beq_false_of_ne h]
    · simp [hca, ih, List.lookup_cons]

theorem lookup_filter_self {α β : Type} [BEq α] [LawfulBEq α] (a : α) (pairs : List (α × β)) :
    (pairs.filter fun pair => pair.1 != a).lookup a = none := by
  induction pairs with
  | nil => rfl
  | cons pair pairs ih =>
    obtain ⟨c, v⟩ := pair
    by_cases hca : c = a
    · simp [hca, ih]
    · simp [hca, ih, List.lookup_cons, beq_false_of_ne (Ne.symm hca)]

theorem entryAt?_erase_self (tree : FileTree) {location : Location}
    (h : location.isPrefixOf tree.start = false) :
    (tree.erase location).entryAt? location = none := by
  rw [entryAt?, if_neg (by simp [erase, keep, h])]
  exact lookup_filter_self location tree.entries

/-- Removing an entry removes no other. -/
theorem entryAt?_erase_of_ne (tree : FileTree) {location l : Location} (h : l ≠ location) :
    (tree.erase location).entryAt? l = tree.entryAt? l := by
  simp only [entryAt?, erase, keep, lookup_filter_ne h]

/-- Putting an entry at a location puts it there. -/
theorem entryAt?_insert_self (tree : FileTree) {location : Location}
    (h : location.isPrefixOf tree.start = false) (entry : Entry)
    (he : ∀ id, entry = .file id → id < tree.contents.length) :
    (tree.insert location entry he).entryAt? location = some entry := by
  rw [entryAt?, if_neg (by simp [insert, h])]
  simp [insert]

/-- Putting an entry at a location changes no other. -/
theorem entryAt?_insert_of_ne (tree : FileTree) {location l : Location} (h : l ≠ location)
    (entry : Entry) (he : ∀ id, entry = .file id → id < tree.contents.length) :
    (tree.insert location entry he).entryAt? l = tree.entryAt? l := by
  simp [entryAt?, insert, erase, keep, List.lookup_cons, beq_false_of_ne h, lookup_filter_ne h]

/-- Whether there is anything in the directory at a location. -/
def isOccupied (tree : FileTree) (location : Location) : Bool :=
  location.isPrefixOf tree.start || tree.entries.any fun (l, _) => l.dropLast == location

/-! ### Where paths lead -/

/-- The number of symbolic links that may be followed on one way. -/
def maxLinks : Nat := 40

/-- The number of bytes in the longest name. -/
def maxName : Nat := 255

/-- The number of bytes in the longest path. -/
def maxPath : Nat := 4095

/-- Walks from a directory down along some names. A link is left to `jump`; the last one is followed
only on demand. -/
def descend (tree : FileTree) (follow : Bool) (jump : Location → List Bytes → Resolution) :
    Location → List Bytes → Resolution
  | dir, [] => .found dir .directory
  | dir, name :: rest =>
    if name = Path.here then descend tree follow jump dir rest
    else if name = Path.above then descend tree follow jump dir.dropLast rest
    else if maxName < name.length then .failed .enametoolong
    else
      let next := dir ++ [name]
      match tree.entryAt? next with
      | none => if rest = [] then .missing next else .failed .enoent
      | some .directory => descend tree follow jump next rest
      | some (.file id) => if rest = [] then .found next (.file id) else .failed .enotdir
      | some (.link target) =>
        if rest = [] ∧ !follow then .found next (.link target)
        else jump (if Path.isAbsolute target then [] else dir) (Path.steps target ++ rest)

/-- Walks from a directory down along some names, with so many links to follow at most. -/
def walk (tree : FileTree) (follow : Bool) : Nat → Location → List Bytes → Resolution
  | 0 => descend tree follow fun _ _ => .failed .eloop
  | links + 1 => descend tree follow (walk tree follow links)

/-- Where a path leads. If it leads to a symbolic link, that link is followed on demand. A path ends
before its first NUL. -/
def resolve (tree : FileTree) (follow : Bool) (path : Bytes) : Resolution :=
  let path := beforeNul path
  if path = [] then .failed .enoent
  else if maxPath < path.length then .failed .enametoolong
  else
    walk tree follow maxLinks (if Path.isAbsolute path then [] else tree.start) (Path.steps path)

/-! ### What there is -/

/-- What a path stands for, if it stands for anything. It is an error if that cannot be told. -/
def status (tree : FileTree) (path : Bytes) : Except Errno (Option (Location × Entry)) :=
  match tree.resolve true path with
  | .found location entry => .ok (some (location, entry))
  | .missing _ => .ok none
  | .failed errno => if errno = .enoent ∨ errno = .enotdir then .ok none else .error errno

/-- Whether a path stands for anything. -/
def isThere (tree : FileTree) (path : Bytes) : Bool :=
  match tree.status path with
  | .ok (some _) => true
  | _ => false

/-- Whether a path stands for a directory. -/
def isDirectory (tree : FileTree) (path : Bytes) : Bool :=
  match tree.status path with
  | .ok (some (_, .directory)) => true
  | _ => false

/-- The file that a path stands for. -/
def file? (tree : FileTree) (path : Bytes) : Option Nat :=
  match tree.status path with
  | .ok (some (_, .file id)) => some id
  | _ => none

/-- The elements of the location that a path leads to. If it leads to nothing, it is followed as far
as there is something, and what is left is only normalized; a symbolic link to something missing
belongs to what is left. It is an error if the path cannot be followed for another reason than that
something is missing. -/
def canonical (tree : FileTree) (path : Bytes) : Except Errno (List Bytes) := do
  match ← tree.status path with
  | some (location, _) => return [Path.slash] :: location
  | none => existing [] [] (Path.elements path)
where
  /-- Goes on along the elements as long as there is something; `known` is the location so far. -/
  existing (path : Bytes) (known : List Bytes) : List Bytes → Except Errno (List Bytes)
    | [] => return Path.normalize known
    | element :: rest => do
      let next := Path.join path element
      match ← tree.status next with
      | some (location, _) => existing next ([Path.slash] :: location) rest
      | none => return Path.normalize (known ++ element :: rest)

/-! ### Changes -/

def makeDirectory (tree : FileTree) (path : Bytes) : Except Errno FileTree :=
  match tree.resolve false path with
  | .found _ _ => .error .eexist
  | .missing location => .ok (tree.insert location .directory)
  | .failed errno => .error errno

def makeLink (tree : FileTree) (path target : Bytes) : Except Errno FileTree :=
  match tree.resolve false path with
  | .found _ _ => .error .eexist
  | .missing location => .ok (tree.insert location (.link target))
  | .failed errno => .error errno

/-- Makes an empty file, or empties a file that is there: the tree after that, and the file. -/
def create (tree : FileTree) (path : Bytes) : Except Errno (FileTree × Nat) :=
  match tree.resolve true path with
  | .found _ (.file id) => .ok (tree.setContent id [], id)
  | .found _ _ => .error .eisdir
  | .missing location =>
    let id := tree.contents.length
    .ok (tree.extend.insert location (.file id) (by simp [extend, id]), id)
  | .failed errno => .error errno

/-- Removes a file, a link or an empty directory. -/
def remove (tree : FileTree) (path : Bytes) : Except Errno FileTree :=
  match tree.resolve false path with
  | .found location .directory =>
    if tree.isOccupied location then .error .enotempty else .ok (tree.erase location)
  | .found location _ => .ok (tree.erase location)
  | .missing _ => .error .enoent
  | .failed errno => .error errno

/-- The bytes of a file from an offset on, at most so many. -/
def slice (tree : FileTree) (id offset n : Nat) : Bytes := ((tree.content id).drop offset).take n

/-- Puts bytes into a file from an offset on. A gap before them is filled with NULs; where there are
no bytes to put, nothing changes. -/
def write (tree : FileTree) (id offset : Nat) (bytes : Bytes) : FileTree :=
  if bytes = [] then tree
  else
    let old := tree.content id
    let before := old.take offset ++ List.replicate (offset - old.length) 0
    tree.setContent id (before ++ bytes ++ old.drop (offset + bytes.length))

end FileTree

end Tftp
