import Docsmith.Files.Tree

/-!
# Listing files

The files below a directory, without those in hidden directories.
-/

namespace Docsmith

def isHidden (name : Text) : Bool := name.startsWith "."

/-- The files below a place whose directories are not hidden, by their names from there. -/
def FileTree.visibleFiles (t : FileTree) (place : List Text) : List (List Text) :=
  (t.filesBelow place).filter fun names => !names.dropLast.any isHidden

def FileTree.filesUnder (t : FileTree) (cwd p : Path) : List (List Text) :=
  match t.place cwd p with
  | .ok place => t.visibleFiles place
  | .error _ => []

def pathTextLe (a b : List Text) : Bool := Text.le (Text.join "/" a) (Text.join "/" b)

/-- The order of a walk from above: the files of a directory come before what lies in its
directories, and names are in order. -/
def walkLe : List Text → List Text → Bool
  | [], _ => true
  | _ :: _, [] => false
  | [a], [b] => Text.le a b
  | [_], _ :: _ :: _ => true
  | _ :: _ :: _, [_] => false
  | a :: s, b :: t => if a = b then walkLe s t else Text.le a b

end Docsmith
