import Docsmith.Model.Basic
import Docsmith.Run.Workspace
import Docsmith.Source.Listing
import Docsmith.Text.Case

/-!
# Reading documents
-/

namespace Docsmith

namespace Document

def formats : Table Text Text := [(".md", "markdown"), (".markdown", "markdown"), (".txt", "text")]

def isNumberSign (c : CodePoint) : Bool := c = '#'

def heading? (content : Text) : Option Text :=
  content.lines.findSome? fun line =>
    let line := line.strip
    let heading := Text.strip (line.dropWhile isNumberSign)
    if line.startsWith "#" && !heading.isEmpty then some heading else none

def ofContent (p : Path) (name content : Text) : Document :=
  ⟨name, content, p.text, some ((heading? content).getD name),
    (formats.get? p.suffix.lower).getD "text"⟩

def load (p : Path) (name : Text) : Action Document := do
  match ← Action.tryReadText p with
  | .ok content => return ofContent p name content
  | .error (.file .unusableName) => Action.fail (.file .unusableName)
  | .error e => Action.fail (.source p.text e.message)

def readOne (p : Path) : Action Document := load p p.stem

/-- The documents under a directory, in the order of a walk; there are none if it does
not exist. -/
def documentNames (t : FileTree) (cwd directory : Path) : List (List Text) :=
  if t.isDirectory cwd directory then
    ((t.filesUnder cwd directory).filter fun names =>
      formats.has (Path.relative names).suffix.lower).mergeSort walkLe
  else []

def readAll (directory : Path) : List (List Text) → Action (List Document)
  | [] => return []
  | names :: rest => do
      let p := directory.join (Path.relative names)
      let d ← load p (Path.relative names).dropSuffix.text
      return d :: (← readAll directory rest)

def readDirectories : List Path → Action (List Document)
  | [] => return []
  | directory :: rest => do
      let w ← Action.workspace
      let ds ← readAll directory (documentNames w.tree w.cwd directory)
      return ds ++ (← readDirectories rest)

end Document

end Docsmith
