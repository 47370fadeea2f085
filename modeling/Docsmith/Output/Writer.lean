import Docsmith.Output.Page
import Docsmith.Value.Json

/-!
# Writers

A writer puts a site into the output directory: as pages, or as one data file.
-/

namespace Docsmith

inductive Writer where
  | html
  | json
deriving DecidableEq, Repr

namespace Writer

def name : Writer → Text
  | .html => "HtmlWriter"
  | .json => "JsonWriter"

/-! ## Pages -/

def writePage (target : Path) (page : Markup) : Action Unit := do
  Action.writeText target (← Action.ofExcept page.render)

def pageEntries (o : Options) : List Var → Action (List PageEntry)
  | [] => return []
  | v :: vs => do
      let uri ← sourceUri o v.facts
      return ⟨v, uri⟩ :: (← pageEntries o vs)

def writeNamespace (o : Options) (frame : Frame) (ns : Namespace) : Action Unit := do
  let entries ← pageEntries o ns.visible
  writePage (o.outputDir.join (Path.ofText (namespaceFile ns.name)))
    (Page.ofNamespace frame ns entries)

def writeDocument (o : Options) (frame : Frame) (d : Document) : Action Unit :=
  writePage (o.outputDir.join (Path.ofText (documentFile d.name))) (Page.ofDocument frame d)

def writeHtml (s : Site) : Action Unit := do
  let o := s.options
  Action.ensureDirectory o.outputDir
  let frame := s.frame
  writePage (o.outputDir.child "index.html") (Page.index frame)
  frame.namespaces.forM (writeNamespace o frame)
  s.documents.forM (writeDocument o frame)
  Action.logAs "writers.html" .info
    ("Wrote " ++ Text.ofNat frame.namespaces.length ++ " namespace pages and "
      ++ Text.ofNat s.documents.length ++ " documents to " ++ o.outputDir.text)

/-! ## Data -/

def record (fields : List (Text × Value)) : Value := .dict (fields.map fun f => (.str f.1, f.2))

mutual
def varData (o : Options) : Var → Action Value
  | .mk f ms => do
      let uri ← sourceUri o f
      let members ← membersData o ms
      return record
        [("name", .str f.name), ("type", .str f.kind), ("doc", f.doc),
         ("arglists", .list (f.arglists.map .str)), ("added", f.added),
         ("deprecated", f.deprecated), ("path", f.path), ("line", f.line),
         ("source_uri", .ofText? uri), ("meta", .dict f.attrs), ("members", .list members)]

def membersData (o : Options) : List Var → Action (List Value)
  | [] => return []
  | v :: vs => do
      if v.facts.noDoc.truthy then membersData o vs
      else
        let d ← varData o v
        return d :: (← membersData o vs)
end

def varsData (o : Options) : List Var → Action (List Value)
  | [] => return []
  | v :: vs => do
      let d ← varData o v
      return d :: (← varsData o vs)

def namespaceData (o : Options) (ns : Namespace) : Action Value := do
  let publics ← varsData o ns.visible
  return record
    [("name", .ofText? ns.name), ("doc", ns.doc), ("added", ns.added),
     ("deprecated", ns.deprecated), ("author", ns.author), ("meta", .dict ns.attrs),
     ("publics", .list publics)]

def namespacesData (o : Options) : List Namespace → Action (List Value)
  | [] => return []
  | ns :: nss => do
      let d ← namespaceData o ns
      return d :: (← namespacesData o nss)

def documentData (d : Document) : Value :=
  record [("name", .str d.name), ("title", .ofText? d.title), ("format", .str d.format),
    ("content", .str d.content)]

def siteData (s : Site) : Action Value := do
  let o := s.options
  let namespaces ← namespacesData o s.visible
  return record
    [("project", record [("name", .ofText? o.name), ("version", .ofText? o.version),
        ("description", .ofText? o.description)]),
     ("namespaces", .list namespaces), ("documents", .list (s.documents.map documentData))]

def dataFile : Text := "codox.json"

def writeJson (s : Site) : Action Unit := do
  let data ← siteData s
  let directory := s.options.outputDir
  Action.ensureDirectory directory
  let target := directory.child dataFile
  Action.writeText target (← Action.ofExcept data.json)
  Action.logAs "writers.json" .info ("Wrote " ++ target.text)

def write : Writer → Site → Action Unit
  | .html => writeHtml
  | .json => writeJson

end Writer

end Docsmith
