import Docsmith.Failure
import Docsmith.Form.Printer
import Docsmith.Model.Basic
import Docsmith.Value.OfForm

/-!
# Definitions in source text

From the forms of a file to the namespace they define.  The first `ns` form names the
namespace; every definition after it may give public variables.
-/

namespace Docsmith

def Failure.ofValueFault : ValueFault → Failure
  | .pattern f => .regex f
  | .unusableKey => .wrongKind

namespace Definition

def localName (name : Text) : Text :=
  if name.contains (CodePoint.ofChar '/') && name ≠ "/" then
    (name.reverse.takeWhile fun (c : CodePoint) => c ≠ '/').reverse
  else name

def write (f : Form) : Except Failure Text :=
  if f.writable then .ok f.render else .error (.read .integerTooLongToWrite)

/-- What counts as false in metadata: nil, zero and what is empty. -/
def holds : Form → Bool
  | .nil => false
  | .bool b => b
  | .int n => n ≠ 0
  | .float (.finite _ m _) => m ≠ 0
  | .str s => !s.isEmpty
  | .coll _ _ items => !items.isEmpty
  | _ => true

def flag : Option Form → Value
  | none | some .nil => .null
  | some f => .bool (holds f)

/-- A version is a text; other forms are written out, and nil and false give none. -/
def version : Option Form → Except Failure Value
  | none | some .nil | some (.bool false) => .ok .null
  | some (.str s) => .ok (.str s)
  | some f => (write f).map .str

def textOnly : Option Form → Value
  | some (.str s) => .str s
  | _ => .null

def isDropped (name : Text) : Bool :=
  [Text.ofString "private", "line", "column", "file", "end-line", "end-column"].contains name

def extraAttrs (attrs : Attrs) : Except Failure Dict :=
  (attrs.filter fun e => !isDropped e.1).mapM fun (name, form) =>
    (form.toValue.map fun v => (Value.str name, v)).mapError Failure.ofValueFault

def attrsOf (f : Form) : Except Failure Attrs := f.toAttrs.mapError .read

/-! ## Argument lists -/

def arityVectors : List Form → List Form
  | .coll .vector line items :: _ => [.coll .vector line items]
  | body => body.filterMap fun
      | .coll .list _ (.coll .vector line items :: _) => some (.coll .vector line items)
      | _ => none

def unquoted : Form → Form
  | .coll .list line [.symbol name attrs, f] =>
      if name = "quote" then f else .coll .list line [.symbol name attrs, f]
  | f => f

def explicitVectors (f : Form) : List Form :=
  match unquoted f with
  | .coll .list _ items | .coll .vector _ items => items.filter Form.isVector
  | _ => []

def writeAll (fs : List Form) : Except Failure (List Text) := fs.mapM write

/-! ## Public variables -/

def members (file : Text) : List Form → Except Failure (List Var)
  | [] => .ok []
  | .keyword _ :: _ :: rest => members file rest
  | .coll .list line (.symbol name _ :: signature) :: rest => do
      let arglists ← writeAll (signature.filter Form.isVector)
      let member : VarFacts :=
        { name := name, kind := "fn", doc := textOnly (signature.find? Form.isStr),
          arglists := arglists, file := .str file, line := .int line }
      return .mk member [] :: (← members file rest)
  | _ :: rest => members file rest

def kinds : Table Text Text :=
  [("def", "var"), ("defonce", "var"), ("defn", "fn"), ("defn-", "fn"), ("defmacro", "macro"),
   ("defmulti", "multimethod"), ("defprotocol", "protocol")]

def isPrivate (attrs : Attrs) : Bool :=
  match attrs.get? "private" with
  | some (.bool true) => true
  | _ => false

def factories (isRecord : Bool) (ns file name : Text) (line : Nat) (fields : Text) : List Var :=
  let className := Text.replaceAll "-" "_" ns ++ "." ++ name
  let make (name doc arglist : Text) : Var :=
    .mk { name := name, kind := "fn", doc := .str doc, arglists := [arglist], file := .str file,
          line := .int line } []
  let positional :=
    make ("->" ++ name) ("Positional factory function for class " ++ className ++ ".") fields
  let fromMap :=
    make ("map->" ++ name)
      ("Factory function for class " ++ className ++ ", taking a map of keywords to field values.")
      "[m]"
  if isRecord then [positional, fromMap] else [positional]

def takeDoc : List Form → Option Form × List Form
  | .str s :: rest => (some (.str s), rest)
  | rest => (none, rest)

def takeAttrs (attrs : Attrs) : List Form → Except Failure (Attrs × List Form)
  | .coll .map line items :: rest => do
      let more ← attrsOf (.coll .map line items)
      return (Table.update attrs more, rest)
  | rest => .ok (attrs, rest)

structure Body where
  doc : Option Form
  attrs : Attrs
  vectors : List Form
  members : List Var

def bodyOf (kind file : Text) (attrs : Attrs) (rest : List Form) : Except Failure Body :=
  if kind = "var" then
    let doc := match rest with
      | .str s :: _ :: _ => some (.str s)
      | _ => none
    .ok ⟨doc, attrs, [], []⟩
  else do
    let (doc, rest) := takeDoc rest
    let (attrs, rest) ← takeAttrs attrs rest
    if kind = "protocol" then return ⟨doc, attrs, [], ← members file rest⟩
    else if kind = "fn" || kind = "macro" then return ⟨doc, attrs, arityVectors rest, []⟩
    else return ⟨doc, attrs, [], []⟩

def docOf (attrs : Attrs) (doc : Option Form) : Value :=
  match attrs.get? "doc" with
  | some (.str s) => .str s
  | _ => textOnly doc

def withoutFields (fields : List Text) (attrs : Attrs) : Attrs :=
  attrs.filter fun e => !fields.contains e.1

def toVar (name kind file : Text) (line : Nat) (body : Body) : Except Failure Var := do
  let implicit ← writeAll body.vectors
  let arglists ← match body.attrs.get? "arglists" with
    | some f => writeAll (explicitVectors f)
    | none => pure implicit
  let added ← version (body.attrs.get? "added")
  let deprecated ← version (body.attrs.get? "deprecated")
  let attrs ← extraAttrs
    (withoutFields ["arglists", "doc", "no-doc", "added", "deprecated"] body.attrs)
  let facts : VarFacts :=
    { name := name, kind := kind, doc := docOf body.attrs body.doc, arglists := arglists,
      noDoc := flag (body.attrs.get? "no-doc"), added := added, deprecated := deprecated,
      file := .str file, line := .int line, attrs := attrs }
  return .mk facts body.members

/-- The public variables of a definition, given by the name of its definer, its line and
the forms after the definer. -/
def publics (macros : Bool) (ns file head : Text) (line : Nat) (rest : List Form) :
    Except Failure (List Var) :=
  let definer := localName head
  if definer = "defrecord" || definer = "deftype" then
    match rest with
    | .symbol name attrs :: .coll .vector l fields :: _ =>
        if isPrivate attrs then .ok []
        else do
          let fields ← write (.coll .vector l fields)
          return factories (definer = "defrecord") ns file name line fields
    | _ => .ok []
  else
    match kinds.get? definer, rest with
    | some kind, .symbol name attrs :: rest =>
        if definer = "defn-" || isPrivate attrs || (kind = "macro" && !macros) then .ok []
        else do
          let body ← bodyOf kind file attrs rest
          return [← toVar name kind file line body]
    | _, _ => .ok []

/-! ## Namespaces -/

structure Header where
  name : Text
  attrs : Attrs
  rest : List Form

def header? : Form → Option Header
  | .coll .list _ (.symbol head _ :: .symbol name attrs :: rest) =>
      if localName head = "ns" then some ⟨name, attrs, rest⟩ else none
  | _ => none

def namespaceOf (h : Header) (publics : List Var) : Except Failure Namespace := do
  let (doc, rest) := takeDoc h.rest
  let (attrs, _) ← takeAttrs h.attrs rest
  let added ← version (attrs.get? "added")
  let deprecated ← version (attrs.get? "deprecated")
  let extra ← extraAttrs (withoutFields ["doc", "author", "no-doc", "added", "deprecated"] attrs)
  return { name := some h.name, doc := docOf attrs doc, publics := publics,
           noDoc := flag (attrs.get? "no-doc"), added := added, deprecated := deprecated,
           author := textOnly (attrs.get? "author"), attrs := extra }

def publicsOf (macros : Bool) (ns file : Text) (forms : List Form) : Except Failure (List Var) :=
  forms.foldlM (fun vars f =>
    match f with
    | .coll .list line (.symbol head _ :: rest) => do
        return vars ++ (← publics macros ns file head line rest)
    | _ => .ok vars) []

def ofForms (macros : Bool) (file : Text) : List Form → Except Failure (Option Namespace)
  | [] => .ok none
  | f :: rest =>
      match header? f with
      | none => ofForms macros file rest
      | some h => do
          let vars ← publicsOf macros h.name file rest
          return some (← namespaceOf h vars)

end Definition

end Docsmith
