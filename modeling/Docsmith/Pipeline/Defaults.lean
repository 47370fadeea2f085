import Docsmith.Failure
import Docsmith.Model.Basic
import Docsmith.Value.Literal

/-!
# Default metadata

A default whose key names a field fills that field where it is null.  A default that
names no field goes into the metadata, beneath the entries that are there.  The name,
the children and the metadata themselves are never filled.
-/

namespace Docsmith

def fieldSpelling (key : Value) : Text := Text.replaceAll "-" "_" key.text

def isStructural (field : Text) : Bool :=
  field = "name" || field = "publics" || field = "members" || field = "meta"

def defaultFor (defaults : Dict) (field : Text) : Option Value :=
  (defaults.reverse.find? fun e => fieldSpelling e.1 = field).map Prod.snd

def fill (defaults : Dict) (field : Text) (current : Value) : Value :=
  if current.isNull then (defaultFor defaults field).getD .null else current

def fillAttrs (isField : Text → Bool) (defaults own : Dict) : Dict :=
  let extra := defaults.filter fun e =>
    !isField (fieldSpelling e.1) && !isStructural (fieldSpelling e.1)
  if extra.isEmpty then own else Dict.update extra own

def isVarField (field : Text) : Bool :=
  [Text.ofString "type", "doc", "arglists", "no_doc", "added", "deprecated", "file", "line",
    "path"].contains field

def isNamespaceField (field : Text) : Bool :=
  [Text.ofString "doc", "no_doc", "added", "deprecated", "author"].contains field

def VarFacts.overlay (defaults : Dict) (f : VarFacts) : VarFacts :=
  { f with
    doc := fill defaults "doc" f.doc
    noDoc := fill defaults "no_doc" f.noDoc
    added := fill defaults "added" f.added
    deprecated := fill defaults "deprecated" f.deprecated
    file := fill defaults "file" f.file
    line := fill defaults "line" f.line
    path := fill defaults "path" f.path
    attrs := fillAttrs isVarField defaults f.attrs }

def Namespace.overlay (defaults : Dict) (ns : Namespace) : Namespace :=
  { ns with
    doc := fill defaults "doc" ns.doc
    noDoc := fill defaults "no_doc" ns.noDoc
    added := fill defaults "added" ns.added
    deprecated := fill defaults "deprecated" ns.deprecated
    author := fill defaults "author" ns.author
    attrs := fillAttrs isNamespaceField defaults ns.attrs }

def addDefaults (defaults : Dict) (nss : List Namespace) : List Namespace :=
  nss.map fun ns =>
    { ns.overlay defaults with publics := Var.mapAll (VarFacts.overlay defaults) ns.publics }

/-- Defaults where there is something to fill.  Their keys are written out for that, so an integer
in one of them may be too long. -/
def complete (defaults : Dict) (nss : List Namespace) : Except Failure (List Namespace) :=
  if nss.isEmpty || defaults.all fun e => e.1.writable then .ok (addDefaults defaults nss)
  else .error (.value .integerTooLong)

/-- The defaults that a value stands for; what counts as false stands for none. -/
def defaultsOfValue (v : Value) : Except Failure Dict :=
  match v with
  | .dict d => .ok d
  | v => if v.truthy then .error .noAttribute else .ok []

end Docsmith
