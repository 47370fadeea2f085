import Docsmith.Options.Keys
import Docsmith.Pipeline.Selection
import Docsmith.Run.Commit

/-!
# Options

The settings of one run, with their defaults, and how they are made from a table of
values.
-/

namespace Docsmith

/-- The exclusion that holds unless another is given: names of generated constructors. -/
def defaultExclusion : Text := "^(map)?->\\p\x7bUpper\x7d"

def fullPath (homes : Homes) (cwd p : Path) : Except Failure Path := do
  let p ← (p.expand? homes).mapError Failure.ofHome
  (Path.resolve? cwd p).mapError Failure.ofName

structure Options where
  root : Path
  language : Text := "clojure"
  sourcePaths : List Text := ["src"]
  namespaces : Option (List Selector) := none
  excludeVars : Option Regex := (Regex.compilePosix defaultExclusion).toOption
  docPaths : List Text := ["doc"]
  docFiles : Option (List Text) := none
  metadata : Dict := []
  writer : Text := "html"
  outputPath : Text := "target/doc"
  srcDirUri : Option Text := none
  srcLinenumAnchorPrefix : Option Text := none
  commit : Commit
  themes : List Text := ["default"]
  name : Option Text := none
  version : Option Text := none
  description : Option Text := none
  exceptionHandler : Value := .null
  extra : Dict := []

namespace Options

def outputDir (o : Options) : Path := o.root.join (Path.ofText o.outputPath)

def sourceRoots (o : Options) : List Path := o.sourcePaths.map fun p => o.root.join (Path.ofText p)

/-! ## Coercions -/

def toText (v : Value) : Except Failure Text :=
  if v.writable then .ok v.text else .error (.value .integerTooLong)

def toTextOrNone (v : Value) : Except Failure (Option Text) :=
  if v.isNull then .ok none else (toText v).map some

def isTextItem : Value → Bool
  | .str _ | .path _ | .bool _ | .int _ | .float _ => true
  | _ => false

def toTexts (v : Value) : Except Failure (List Text) :=
  match v with
  | .str s | .path s => .ok [s]
  | .bytes b => .ok (b.map fun n => Text.ofNat n.toNat)
  | .list items | .tuple items => (items.filter isTextItem).mapM toText
  | _ => .ok []

def toSelection (v : Value) : Except Failure (Option (List Selector)) :=
  match v with
  | .selector _ => .error .wrongKind
  | v => Selector.allOfValue v

def toDocFiles (v : Value) : Except Failure (Option (List Text)) :=
  if v.isNull || v.isText everything then .ok none else (toTexts v).map some

def isPatternFailure : Failure → Bool
  | .regex .hugeCount => false
  | .regex _ | .value _ => true
  | _ => false

def toExclusion (v : Value) : Except Failure (Option Regex) :=
  match Selector.exclusionOfValue v with
  | .ok r => .ok r
  | .error f =>
      if isPatternFailure f then .error (v.shown fun t => .config (.badExclusion t f.message))
      else .error f

def toMetadata (v : Value) : Except Failure Dict :=
  match v with
  | .null => .ok []
  | .dict d => .ok d
  | _ => .error (.config .metadataNotMapping)

def toCommit (root : Path) (v : Value) : Except Failure Commit :=
  match v with
  | .null => .ok (.pending root)
  | .known v => .ok (.known v)
  | .pending directory => .ok (.pending (Path.ofText directory))
  | v => (toText v).map fun t => .known (.str t)

def set (o : Options) (key : Text) (v : Value) : Except Failure Options := do
  if key = "language" then return { o with language := dropColons (← toText v) }
  else if key = "source_paths" then return { o with sourcePaths := ← toTexts v }
  else if key = "namespaces" then return { o with namespaces := ← toSelection v }
  else if key = "exclude_vars" then return { o with excludeVars := ← toExclusion v }
  else if key = "doc_paths" then return { o with docPaths := ← toTexts v }
  else if key = "doc_files" then return { o with docFiles := ← toDocFiles v }
  else if key = "metadata" then return { o with metadata := ← toMetadata v }
  else if key = "writer" then return { o with writer := ← toText v }
  else if key = "output_path" then return { o with outputPath := ← toText v }
  else if key = "src_dir_uri" then return { o with srcDirUri := ← toTextOrNone v }
  else if key = "src_linenum_anchor_prefix" then
    return { o with srcLinenumAnchorPrefix := ← toTextOrNone v }
  else if key = "git_commit" then return { o with commit := ← toCommit o.root v }
  else if key = "themes" then return { o with themes := ← toTexts v }
  else if key = "name" then return { o with name := ← toTextOrNone v }
  else if key = "version" then return { o with version := ← toTextOrNone v }
  else if key = "description" then return { o with description := ← toTextOrNone v }
  else if key = "exception_handler" then return { o with exceptionHandler := v }
  else return { o with extra := Dict.insert (.str key) v o.extra }

def rootOf (v : Option Value) (start cwd : Path) (homes : Homes) : Except Failure Path :=
  match v with
  | some (.str s) => fullPath homes cwd (if s.isEmpty then start else Path.ofText s)
  | some (.path s) => fullPath homes cwd (Path.ofText s)
  | some v => if v.truthy then .error .wrongKind else fullPath homes cwd start
  | none => fullPath homes cwd start

def extraOf : Option Value → Dict
  | some (.dict d) => d
  | _ => []

def ofTable (t : OptionTable) (start cwd : Path) (homes : Homes) : Except Failure Options := do
  let root ← rootOf (t.get? "root_path") start cwd homes
  let base : Options :=
    { root := root, commit := .pending root, extra := extraOf (t.get? "extra") }
  let rest := (t.erase "root_path").erase "extra"
  rest.foldlM (fun o e => o.set e.1 e.2) base

def ofValue (v : Value) (start cwd : Path) (homes : Homes) : Except Failure Options := do
  ofTable (← OptionTable.ofValue v) start cwd homes

def toValues (o : Options) : OptionTable :=
  let texts (ts : List Text) : Value := .list (ts.map .str)
  [("root_path", .path o.root.text), ("language", .str o.language),
   ("source_paths", texts o.sourcePaths),
   ("namespaces", match o.namespaces with
     | none => .str everything
     | some patterns => .list (patterns.map .selector)),
   ("exclude_vars", (o.excludeVars.map .regex).getD .null),
   ("doc_paths", texts o.docPaths),
   ("doc_files", (o.docFiles.map texts).getD (.str everything)),
   ("metadata", .dict o.metadata), ("writer", .str o.writer), ("output_path", .str o.outputPath),
   ("src_dir_uri", .ofText? o.srcDirUri),
   ("src_linenum_anchor_prefix", .ofText? o.srcLinenumAnchorPrefix),
   ("git_commit", o.commit.toValue), ("themes", texts o.themes), ("name", .ofText? o.name),
   ("version", .ofText? o.version), ("description", .ofText? o.description),
   ("exception_handler", o.exceptionHandler), ("extra", .dict o.extra)]

end Options

end Docsmith
