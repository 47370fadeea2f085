import Docsmith.Options.Basic
import Docsmith.Options.Project
import Docsmith.Yaml.Value

/-!
# Loading options

The options of a project come from its configuration file; if that says nothing, from its
dependency file; and without one, from its project definition.
-/

namespace Docsmith

def configName : Text := ".codox.yml"

def resolvedPath (p : Path) : Action Path := do
  let w ← Action.workspace
  Action.ofExcept (fullPath w.homes w.cwd p)

def configPath (p : Path) : Action Path := do
  let w ← Action.workspace
  let p ← Action.ofExcept ((p.expand? w.homes).mapError Failure.ofHome)
  let file := if w.tree.isDirectory w.cwd p then p.child configName else p
  Action.ofExcept ((Path.resolve? w.cwd file).mapError Failure.ofName)

def malformedDetails : Text := "<yaml>"

def configValue (file : Path) (text : Text) : Except Failure Value :=
  if text.strip.isEmpty then .ok (.dict [])
  else
    match Yaml.parse text with
    | .ok .null => .ok (.dict [])
    | .ok v => .ok v
    | .error .malformed => .error (.config (.unparsed file.name malformedDetails))
    | .error fault => .error (.scalar fault)

def loadConfig (p : Path) : Action OptionTable := do
  let file ← configPath p
  if !(← Action.fileExists file) then return []
  match ← Action.ofExcept (configValue file (← Action.readText file)) with
  | .dict d => Action.ofExcept (OptionTable.ofValue (.dict d))
  | _ => Action.fail (.config .rootNotMapping)

def projectSection (root : Path) (argPaths : Value) : Action (Option Text × OptionTable) := do
  let config ← loadConfig root
  if !config.isEmpty then return (some configName, config)
  let dependencies := root.child "deps.edn"
  if ← Action.fileExists dependencies then
    return (some "deps.edn", ← ProjectFile.dependencyOptions dependencies argPaths)
  let definition := root.child "project.clj"
  if ← Action.fileExists definition then
    return (some "project.clj", ← ProjectFile.definitionOptions definition)
  return (none, [])

/-- The options of a project over those that are given.  The root is the directory of the
project, unless another one is named. -/
def loadProjectOptions (root : Path) (base : Value) : Action OptionTable := do
  let root ← resolvedPath root
  let given ← Action.ofExcept (OptionTable.ofValue base)
  let argPaths := (given.get? "arg_paths").getD .null
  let (source, found) ← projectSection root argPaths
  match source with
  | some name =>
      Action.logAs ProjectFile.logger .debug ("Loaded options from " ++ (root.child name).text)
  | none => pure ()
  let options := Table.update (given.erase "arg_paths") found
  return if options.has "root_path" then options
    else Table.insert "root_path" (.str root.text) options

end Docsmith
