import Docsmith.Cli.Arguments
import Docsmith.Options.Listing
import Docsmith.Options.Load
import Docsmith.Run.Generate

/-!
# The command

The options of a project, with the arguments written over them, are listed and run.
-/

namespace Docsmith.Cli

structure Answer where
  exit : Nat
  out : Text := []
  err : Text := []

def logger : Text := "cli"

def overrides (a : Arguments) : OptionTable :=
  let single (key : Text) (v : Option Text) : OptionTable := (v.map fun v => (key, .str v)).toList
  let several (key : Text) (vs : List Text) : OptionTable :=
    if vs.isEmpty then [] else [(key, .list (vs.map .str))]
  single "language" a.language ++ single "writer" a.writer ++ single "output_path" a.outputPath
    ++ several "source_paths" a.sourcePaths ++ several "namespaces" a.namespaces
    ++ single "exclude_vars" a.excludeVars ++ several "doc_paths" a.docPaths

def keyPath (t : Text) : Value := .list ((Text.splitOn '.' t).map .str)

def baseOptions (a : Arguments) : Value :=
  if a.argPaths.isEmpty then .dict []
  else .dict [(.str "arg_paths", .list (a.argPaths.map keyPath))]

def listing (t : OptionTable) : Action Text := do
  let w ← Action.workspace
  let short (s : Text) : Text := w.abbreviations.foldl (fun s a => Text.replaceAll a.1 a.2 s) s
  Action.ofExcept (optionsListing unlistedKeys (t.toDict.map fun e => (e.1, e.2.mapText short)))

def document (a : Arguments) : Action Options := do
  let project ← loadProjectOptions (Path.ofText a.path) (baseOptions a)
  let table := Table.update project (overrides a)
  let w ← Action.workspace
  let options ← Action.ofExcept (Options.ofTable table w.cwd w.cwd w.homes)
  Action.logAs logger .info ("Codox options:\n" ++ (← listing table))
  let _ ← Run.generate options
  return options

def failureText? (f : Failure) : Option Text :=
  if f.isFatal then some ("codox failed: " ++ f.message ++ "\nRun with --verbose for more details.\n")
  else if f.isBadValue then some ("codox failed: " ++ f.message ++ "\n")
  else none

def shownDirectory (cwd p : Path) : Text := ((Path.below? cwd p).getD p).text

def attempt {α : Type} (action : Action α) : Action (Except Failure α) := fun w =>
  match action w with
  | (result, w) => (.ok result, w)

def perform (a : Arguments) : Action Answer := do
  Action.configureLogging a.verbose (a.logFile.map Path.ofText)
  let result ← attempt (document a)
  let w ← Action.workspace
  match result with
  | .ok options =>
      return ⟨0, "Documentation written to " ++ shownDirectory w.cwd options.outputDir ++ "\n",
        w.console⟩
  | .error f =>
      match failureText? f with
      | some t => return ⟨1, [], w.console ++ t⟩
      | none => Action.fail f

def helpText : Text :=
  "usage: codox [options] [path]\n\n"
    ++ "Generate API documentation from clojure and clojurescript sources.\n\noptions:\n"
    ++ Flag.all.flatMap fun f => Text.ofString "  " ++ Text.join ", " f.names ++ [Text.newline]

def run (argv : List Text) : Action Answer :=
  match Arguments.parse argv with
  | .ok a => perform a
  | .error .help => return ⟨0, helpText, []⟩
  | .error (.misuse e) => return ⟨2, [], "codox: error: " ++ e.message ++ "\n"⟩

end Docsmith.Cli
