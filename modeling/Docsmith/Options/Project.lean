import Docsmith.Options.Basic
import Docsmith.Run.Workspace
import Docsmith.Source.Definition

/-!
# Options in project files

The options of a project come from the first of its project files that says something.
-/

namespace Docsmith

namespace Form

/-- The values of the wanted keywords in a flat sequence.  The form after a wanted keyword
is its value, whatever it is. -/
def findVals (wanted : List Text) : List Form → Attrs → Attrs
  | .keyword name :: value :: rest, found =>
      if wanted.contains name then findVals wanted rest (found.insert name value)
      else findVals wanted (value :: rest) found
  | _ :: rest, found => findVals wanted rest found
  | [], found => found

end Form

namespace ProjectFile

/-- The forms of a project file.  What cannot be read is an error of the configuration,
but for an integer that is too long. -/
def forms (p : Path) : Action (List Form) := do
  match ← Action.tryReadText p with
  | .error e => Action.fail (.config (.unparsed p.name e.message))
  | .ok text =>
      match Form.readAll ["clj"] text with
      | .ok forms => return forms
      | .error e =>
          Action.fail (if e.line?.isSome then .config (.unparsed p.name e.message) else .read e)

def valueOf (p : Path) (f : Form) : Action Value :=
  match f.toValue with
  | .ok v => return v
  | .error (.pattern fault) =>
      Action.fail (if fault.isPatternError then .config (.badRegex p.name fault.message)
        else .regex fault)
  | .error .unusableKey => Action.fail .wrongKind

/-- The items that a value gives one by one: of a text its code points, of bytes their
numbers, and of a dictionary its keys. -/
def itemsOf : Value → Except Failure (List Value)
  | .list items | .tuple items | .set items => .ok items
  | .str s => .ok (s.map fun c => .str [c])
  | .bytes b => .ok (b.map fun n => .int n.toNat)
  | .dict d => .ok (d.map Prod.fst)
  | _ => .error .wrongKind

def getIn (v : Option Value) : List Value → Except Failure (Option Value)
  | [] => .ok v
  | key :: keys =>
      match v with
      | some (.dict d) => do getIn (Dict.getText? d (dropColons (← Options.toText key))) keys
      | _ => .ok none

def logger : Text := "project"

def sections (p : Path) (data : Value) : List Value → Dict → Action Dict
  | [], merged => return merged
  | keyPath :: rest, merged => do
      let keys ← Action.ofExcept (itemsOf keyPath)
      match ← Action.ofExcept (getIn (some data) keys) with
      | some (.dict d) => sections p data rest (Dict.update merged d)
      | _ => do
          Action.logAs logger .debug
            ("No options map at " ++ (Value.list keys).literal ++ " in " ++ p.name)
          sections p data rest merged

def dependencyOptions (p : Path) (argPaths : Value) : Action OptionTable := do
  match ← forms p with
  | .coll .map line items :: _ =>
      let data ← valueOf p (.coll .map line items)
      let paths ← if argPaths.truthy then Action.ofExcept (itemsOf argPaths) else pure []
      let merged ← sections p data paths []
      Action.ofExcept (OptionTable.ofValue (.dict merged))
  | _ => Action.fail (.config (.notMap p.name))

def definition? : List Form → Option (Form × Form × List Form)
  | [] => none
  | .coll .list _ (.symbol head _ :: rest) :: more =>
      if head = "defproject" then
        match rest with
        | name :: version :: rest => some (name, version, rest)
        | _ => none
      else definition? more
  | _ :: more => definition? more

def baseName (t : Text) : Text := (t.reverse.takeWhile fun (c : CodePoint) => c ≠ '/').reverse

def valuesOf (p : Path) : Attrs → Action OptionTable
  | [] => return []
  | (name, f) :: rest => do
      let v ← valueOf p f
      return (name, v) :: (← valuesOf p rest)

def definitionOptions (p : Path) : Action OptionTable := do
  match definition? (← forms p) with
  | none => Action.fail (.config (.noProject p.name))
  | some (name, version, rest) =>
      let some name := name.label? | Action.fail (.read .integerTooLongToWrite)
      let version : Value := match version with
        | .str s => .str s
        | _ => .null
      let values ← valuesOf p (Form.findVals ["description", "profiles"] rest [])
      let own : OptionTable :=
        [("name", .str (baseName name)), ("version", version),
         ("description", (values.get? "description").getD (.str []))]
      match ← Action.ofExcept (getIn (values.get? "profiles") [.str "codox", .str "codox"]) with
      | some (.dict d) =>
          let section_ ← Action.ofExcept (OptionTable.ofValue (.dict d))
          return Table.update own section_
      | _ => return own

end ProjectFile

end Docsmith
