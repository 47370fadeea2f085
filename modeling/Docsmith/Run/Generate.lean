import Docsmith.Options.Basic
import Docsmith.Pipeline.Defaults
import Docsmith.Pipeline.Merge
import Docsmith.Pipeline.Provenance
import Docsmith.Registry
import Docsmith.Source.Documents

/-!
# A documentation run

Namespaces are read, merged, selected, and completed; documents are read; and the writer
puts both into the output directory.
-/

namespace Docsmith

namespace Run

def logger : Text := "orchestrator"

/-- What is done with a source that cannot be read, by the handler that the options give. -/
def recovery (o : Options) : Recovery :=
  match o.exceptionHandler with
  | .null => .stop
  | .handler => .handOver
  | _ => .misuse

def readSources (o : Options) (d : Dialect) : Action (List Namespace) := do
  let nss ← d.read (recovery o) o.sourceRoots
  if d.needsMacroPass then
    let macros ← Dialect.readMacros (recovery o) o.sourceRoots
    Action.logAs logger .debug
      ("Macro pass found " ++ Text.ofNat macros.length ++ " namespaces")
    return nss ++ macros
  else return nss

def readNamespaces (o : Options) : Action (List Namespace) := do
  let d ← Action.ofExcept (resolveReader builtInReaders [] (.str o.language))
  let nss := selectNamespaces o.namespaces (mergeNamespaces (← readSources o d))
  Action.recordAll (exclusionLog o.excludeVars nss)
  let w ← Action.workspace
  let (nss, log) ← Action.ofExcept
    (addSourcePaths w.tree w.cwd o.root (o.sourcePaths.map Path.ofText)
      (removeExcluded o.excludeVars nss))
  Action.recordAll log
  Action.ofExcept (complete o.metadata nss)

def readFiles (root : Path) : List Text → Action (List Document)
  | [] => return []
  | name :: names => do
      let d ← Document.readOne (root.join (Path.ofText name))
      return d :: (← readFiles root names)

/-- The documents of a run: the files that are listed, in their order, or all documents
under the documentation paths, by name. -/
def readDocuments (o : Options) : Action (List Document) := do
  match o.docFiles with
  | some files => readFiles o.root files
  | none =>
      let ds ← Document.readDirectories (o.docPaths.map fun p => o.root.join (Path.ofText p))
      return ds.mergeSort fun a b => Text.le a.name b.name

def generate (o : Options) : Action Site := do
  Action.startCommit o.commit
  let writer ← Action.ofExcept (resolveWriter builtInWriters [] (.str o.writer))
  Action.logAs logger .debug ("Using writer " ++ writer.name)
  let namespaces ← readNamespaces o
  let documents ← readDocuments o
  let site : Site := ⟨o, namespaces, documents⟩
  writer.write site
  Action.logAs logger .info
    ("Documented " ++ Text.ofNat namespaces.length ++ " namespaces and "
      ++ Text.ofNat documents.length ++ " documents")
  return site

end Run

end Docsmith
