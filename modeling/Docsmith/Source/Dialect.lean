import Docsmith.Run.Workspace
import Docsmith.Source.Definition
import Docsmith.Source.Listing

/-!
# Reading source trees

A dialect says which files are sources, which features are on in them, and whether
macros are public.
-/

namespace Docsmith

structure Dialect where
  name : Text
  readerName : Text
  extensions : List Text
  features : List Text
  macros : Bool
  needsMacroPass : Bool
deriving DecidableEq, Repr

namespace Dialect

def clojure : Dialect := ⟨"clojure", "ClojureReader", [".clj", ".cljc"], ["clj"], true, false⟩

def clojurescript : Dialect :=
  ⟨"clojurescript", "ClojureScriptReader", [".cljs", ".cljc"], ["cljs"], false, true⟩

def all : List Dialect := [clojure, clojurescript]

def logger (d : Dialect) : Text := "readers." ++ d.readerName

def isSource (d : Dialect) (p : Path) : Bool := d.extensions.contains p.suffix

structure SourceFile where
  path : Path
  relativeName : Text
deriving DecidableEq, Repr

def sourceFiles (d : Dialect) (t : FileTree) (cwd root : Path) : Except Failure (List SourceFile) :=
  if t.isFile cwd root then
    .ok (if d.isSource root then [⟨root, root.name⟩] else [])
  else if t.isDirectory cwd root then
    let names := (t.filesUnder cwd root).filter fun names => d.isSource (Path.relative names)
    .ok ((names.mergeSort pathTextLe).map fun names =>
      ⟨root.join (Path.relative names), Text.join "/" names⟩)
  else .error (.source root.text "path does not exist")

def namespaceOfText (d : Dialect) (file : SourceFile) (text : Except TextFault Text) :
    Except Failure (Option Namespace) :=
  match text with
  | .error e => .error (.source file.path.text e.message)
  | .ok text =>
      match Form.readAll d.features text with
      | .error e =>
          .error (if e.line?.isSome then .source file.path.text e.message else .read e)
      | .ok forms => Definition.ofForms d.macros file.relativeName forms

/-- Reads one file.  A source that cannot be read is dealt with as `r` says. -/
def readFile (d : Dialect) (r : Recovery) (file : SourceFile) : Action (List Namespace) := do
  match d.namespaceOfText file (← Action.tryReadText file.path) with
  | .ok (some ns) => return [ns]
  | .ok none =>
      Action.logAs d.logger .debug ("Skipping " ++ file.path.text ++ ": no ns form")
      return []
  | .error (.source path reason) =>
      match r with
      | .handOver => do
          Action.handle (.source path reason) file.path.text
          return []
      | .stop => Action.fail (.source path reason)
      | .misuse => Action.fail .wrongKind
  | .error e => Action.fail e

def readFiles (d : Dialect) (r : Recovery) : List SourceFile → Action (List Namespace)
  | [] => return []
  | f :: fs => do
      let nss ← d.readFile r f
      return nss ++ (← d.readFiles r fs)

def readRoots (d : Dialect) (r : Recovery) : List Path → Action (List Namespace)
  | [] => return []
  | root :: roots => do
      let w ← Action.workspace
      let files ← Action.ofExcept (d.sourceFiles w.tree w.cwd root)
      let nss ← d.readFiles r files
      return nss ++ (← d.readRoots r roots)

def read (d : Dialect) (r : Recovery) (roots : List Path) : Action (List Namespace) := do
  let nss ← d.readRoots r roots
  Action.logAs d.logger .debug
    ("Read " ++ Text.ofNat nss.length ++ " namespaces from " ++ Text.ofNat roots.length
      ++ " source paths")
  return nss

def macrosOnly (nss : List Namespace) : List Namespace :=
  (nss.map fun ns => { ns with publics := ns.publics.filter Var.isMacro }).filter fun ns =>
    !ns.publics.isEmpty

def readMacros (r : Recovery) (roots : List Path) : Action (List Namespace) := do
  return macrosOnly (← clojure.read r roots)

end Dialect

end Docsmith
