import Tftp.Bytes

/-!
# Paths

A path is a text in which slashes separate names. It is read in two ways:

* `Path.steps` — what is walked through, one name after the other; a slash at the end asks for a
  directory, which is one more step to `.`;
* `Path.elements` — what is compared: a root element if the path starts at the root, the names, and
  an empty element if there is a slash at the end.

`Path.join` puts two paths one after the other, and `Path.normalize` takes out of the elements of a
path what can be taken out without a look at any file.
-/

namespace Tftp.Path

/-- What separates names. -/
def slash : UInt8 := 47

/-- The directory itself. -/
def here : Bytes := ascii "."

def above : Bytes := ascii ".."

/-- Whether a path starts at the root. -/
def isAbsolute (path : Bytes) : Bool := path.head? == some slash

def endsInSlash (path : Bytes) : Bool := path.getLast? == some slash

/-- The names in a path. Several slashes in a row count as one. -/
def names (path : Bytes) : List Bytes := (fields slash path).filter fun name => !name.isEmpty

/-- What a path is walked through. -/
def steps (path : Bytes) : List Bytes :=
  names path ++ if endsInSlash path then [here] else []

/-- What a path is compared by. -/
def elements (path : Bytes) : List Bytes :=
  (if isAbsolute path then [[slash]] else []) ++ names path ++
    if endsInSlash path ∧ names path ≠ [] then [[]] else []

/-- The path that leads from one path on to another. One that starts at the root stands for itself.
-/
def join (path next : Bytes) : Bytes :=
  if path = [] ∨ isAbsolute next then next
  else if endsInSlash path then path ++ next
  else path ++ slash :: next

/-- Puts one element on a normalized path, whose last element comes first. -/
def pushNormal (stack : List Bytes) (element : Bytes) : List Bytes :=
  if element = [] ∨ element = here then stack
  else if element = above then
    match stack with
    | [] => [above]
    | top :: below =>
      if top = [slash] then stack
      else if top = above then above :: stack
      else below
  else element :: stack

/-- The elements of a path without `.`, and without `..` except at the front of a path that does not
start at the root. Of a path that leads nowhere `.` is left. -/
def normalize (path : List Bytes) : List Bytes :=
  match (path.foldl pushNormal []).reverse with
  | [] => if path = [] then [] else [here]
  | elements => elements

end Tftp.Path
