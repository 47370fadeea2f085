import Docsmith.Failure
import Docsmith.Log
import Docsmith.Model.Basic

/-!
# Where variables come from

A variable knows its file relative to some source path.  Here it gets the path of that
file relative to the project, from the first source path that holds the file.
-/

namespace Docsmith

namespace FileTree

/-- The first place among the roots that holds a file: a directory that contains it, or a
root that is a file of that name. -/
def findSource (t : FileTree) (cwd : Path) (file : Text) : List Path → Option Path
  | [] => none
  | root :: roots =>
      if t.isFile cwd root then
        if root.name = file then some root else findSource t cwd file roots
      else
        let candidate := root.join (Path.ofText file)
        if t.isFile cwd candidate then some candidate else findSource t cwd file roots

/-- As `findSource` for a file given as a value.  Only texts and paths can be joined to a
directory. -/
def findSourceValue (t : FileTree) (cwd : Path) (file : Value) (roots : List Path) :
    Except Failure (Option Path) :=
  match file with
  | .str s => .ok (t.findSource cwd s roots)
  | .path p =>
      .ok (t.findSource cwd p (roots.filter fun r => !t.isFile cwd r))
  | _ => if roots.all (t.isFile cwd) then .ok none else .error .wrongKind

def relativeTo (cwd root p : Path) : Text :=
  ((Path.below? root p).getD (Path.wayFrom cwd root p)).text

end FileTree

abbrev Found := List (Value × Option Text)

def missingRecord (name : Text) (file : Value) (roots : List Path) : LogRecord :=
  ⟨loggerName "provenance", .debug,
    "No source path for " ++ name ++ ": "
      ++ (Failure.provenance file.text (roots.map Path.text)).message⟩

structure Search where
  found : Found
  log : List LogRecord

abbrev Searching := StateT Search (Except Failure)

def sourcePath (t : FileTree) (cwd root : Path) (roots : List Path) (name : Text) (file : Value) :
    Searching (Option Text) := fun s =>
  if !file.isKey then .error .wrongKind
  else match s.found.find? fun e => e.1.sameKey file with
  | some (_, path) => .ok (path, s)
  | none =>
      match t.findSourceValue cwd file roots with
      | .error e => .error e
      | .ok (some p) =>
          let path := some (FileTree.relativeTo cwd root p)
          .ok (path, { s with found := s.found ++ [(file, path)] })
      | .ok none =>
          .ok (none, ⟨s.found ++ [(file, none)], s.log ++ [missingRecord name file roots]⟩)

def locate (t : FileTree) (cwd root : Path) (roots : List Path) (f : VarFacts) :
    Searching VarFacts := do
  if f.file.truthy then
    match ← sourcePath t cwd root roots f.name f.file with
    | some path => return { f with path := .str path }
    | none => return f
  else return f

namespace Var

mutual
def mapM' (step : VarFacts → Searching VarFacts) : Var → Searching Var
  | .mk facts members => do
      let facts ← step facts
      return .mk facts (← mapAllM' step members)

def mapAllM' (step : VarFacts → Searching VarFacts) : List Var → Searching (List Var)
  | [] => return []
  | v :: vs => do
      let v ← mapM' step v
      return v :: (← mapAllM' step vs)
end

end Var

/-- Paths for all variables, and the records of the files that were not found. -/
def addSourcePaths (t : FileTree) (cwd root : Path) (sources : List Path) (nss : List Namespace) :
    Except Failure (List Namespace × List LogRecord) := do
  let roots := sources.map root.join
  let step := locate t cwd root roots
  let (nss, search) ← (nss.mapM fun ns => do
    return { ns with publics := ← Var.mapAllM' step ns.publics } : Searching (List Namespace)).run
      ⟨[], []⟩
  return (nss, search.log)

end Docsmith
