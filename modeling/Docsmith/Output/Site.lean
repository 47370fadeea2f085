import Docsmith.Model.Basic
import Docsmith.Options.Basic
import Docsmith.Run.Workspace

/-!
# What is written

The namespaces and documents of a run with its options, what of them is shown, and the
links from variables to their sources.
-/

namespace Docsmith

structure Site where
  options : Options
  namespaces : List Namespace
  documents : List Document

namespace Site

def visible (s : Site) : List Namespace :=
  (s.namespaces.filter fun ns => !ns.noDoc.truthy).mergeSort fun a b => Text.le a.label b.label

end Site

def Namespace.visible (ns : Namespace) : List Var :=
  (ns.publics.filter fun v => !v.facts.noDoc.truthy).mergeSort fun a b => Text.le a.name b.name

def Var.visibleMembers (v : Var) : List Var := v.members.filter fun m => !m.facts.noDoc.truthy

/-! ## Links to sources -/

def commitPlaceholder : Text := "\x7bgit-commit\x7d"

/-- The commit as text; what counts as false is empty. -/
def commitText (v : Value) : Except Failure Text :=
  match v with
  | .str s => .ok s
  | v => if v.truthy then .error .wrongKind else .ok []

/-- The start of every link, with the commit in its place.  The commit is looked up only
if it has a place. -/
def linkBase (o : Options) (uri : Text) : Action Text := do
  if Text.includes commitPlaceholder uri then
    let commit ← Action.ofExcept (commitText (← Action.lookUpCommit o.commit))
    return Text.replaceAll commitPlaceholder commit uri
  else return uri

def lineAnchor (o : Options) (line : Value) : Except Failure Text :=
  if line.isNull then .ok []
  else (Options.toText line).map fun t => "#" ++ o.srcLinenumAnchorPrefix.getD [] ++ t

def sourceUri (o : Options) (f : VarFacts) : Action (Option Text) := do
  match o.srcDirUri with
  | none => return none
  | some uri =>
      if uri.isEmpty || !f.path.truthy then return none
      let base ← linkBase o uri
      let path ← Action.ofExcept (Options.toText f.path)
      let anchor ← Action.ofExcept (lineAnchor o f.line)
      return some (base ++ path ++ anchor)

end Docsmith
