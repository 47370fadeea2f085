import Docsmith.Log
import Docsmith.Run.Commit

/-!
# The workspace of a run

A run reads and writes files, logs, hands failures to a handler, and may look up the
commit.  All of this is kept in one value, and an action changes it even if it fails.
-/

namespace Docsmith

/-- What is done with a source that cannot be read: the run stops, a handler takes the
failure, or what is given as handler cannot be used as one. -/
inductive Recovery where
  | stop
  | handOver
  | misuse
deriving DecidableEq, Repr

def lossReport (_ : LogRecord) (e : Utf8.EncodeError) : Text :=
  "--- Logging error ---\nUnicodeEncodeError: " ++ e.message ++ "\n"

/-- The state of a run.  Until logging is configured records are kept in `log`; then what
the console shows is kept in `console`.  `time` is what log files show as the time, and
listings of options show the first part of an abbreviation as its second.  `report` is shown for a
record that a log file loses; it depends on where in the program the record comes from. -/
structure Workspace where
  cwd : Path
  tree : FileTree
  homes : Homes := []
  log : List LogRecord := []
  handled : List (Failure × Text) := []
  runner : Runner := ⟨none, []⟩
  commit : Option Commit := none
  logging : Option Logging := none
  console : Text := []
  time : Text := []
  abbreviations : List (Text × Text) := []
  report : LogRecord → Utf8.EncodeError → Text := lossReport

namespace Workspace

/-- What a handler does with a record.  A file loses a record that cannot be encoded, and the
console reports that. -/
def emit (r : LogRecord) (w : Workspace) (h : Handler) : Workspace :=
  match h.destination with
  | .console => { w with console := w.console ++ r.consoleLine }
  | .file place =>
      match Utf8.encode (r.fileLine w.time) with
      | .ok bytes => { w with tree := w.tree.append place bytes }
      | .error e => { w with console := w.console ++ w.report r e }

def record (w : Workspace) (r : LogRecord) : Workspace :=
  match w.logging with
  | none => { w with log := w.log ++ [r] }
  | some l => (l.takers r).foldl (emit r) w

end Workspace

abbrev Action := ExceptT Failure (StateM Workspace)

namespace Action

def ofExcept {α : Type} (e : Except Failure α) : Action α := fun w => (e, w)

def fail {α : Type} (f : Failure) : Action α := fun w => (.error f, w)

def workspace : Action Workspace := fun w => (.ok w, w)

def record (r : LogRecord) : Action Unit := fun w => (.ok (), w.record r)

def recordAll (rs : List LogRecord) : Action Unit := fun w => (.ok (), rs.foldl (·.record ·) w)

def logAs (part : Text) (level : Level) (message : Text) : Action Unit :=
  record ⟨loggerName part, level, message⟩

def handle (f : Failure) (path : Text) : Action Unit := fun w =>
  (.ok (), { w with handled := w.handled ++ [(f, path)] })

def startCommit (given : Commit) : Action Unit := fun w => (.ok (), { w with commit := some given })

def lookUpCommit (given : Commit) : Action Value := fun w =>
  let (result, commit, runner) := (w.commit.getD given).get w.runner w.tree w.cwd
  (result.mapError .commit, { w with commit := some commit, runner := runner })

def fileExists (p : Path) : Action Bool := fun w => (.ok (w.tree.exists? w.cwd p), w)

def tryReadText (p : Path) : Action (Except TextFault Text) := fun w =>
  (.ok (w.tree.readText w.cwd p), w)

def readText (p : Path) : Action Text := fun w =>
  ((w.tree.readText w.cwd p).mapError Failure.ofText, w)

def change (f : Path → FileTree → Except FileFault FileTree) : Action Unit := fun w =>
  match f w.cwd w.tree with
  | .ok tree => (.ok (), { w with tree := tree })
  | .error e => (.error (.file e), w)

def ensureDirectory (p : Path) : Action Unit := change fun cwd t => t.ensureDirectory cwd p

/-- Sets the level, and sets up handlers in place of those before: one for the console, and one
for the log file if there is one.  A log file is opened at once; if that fails there are no
handlers. -/
def configureLogging (verbose : Bool) (file : Option Path) : Action Unit := fun w =>
  let level := Logging.levelFor verbose
  let bare := ((w.logging.getD ⟨level, []⟩).setLevel level).removeHandlers
  match file with
  | none => (.ok (), { w with logging := some (bare.addHandlers level [.console]) })
  | some p =>
      let p := Path.resolve w.cwd p
      match w.tree.openLog p with
      | .ok tree =>
          let logging := bare.addHandlers level [.console, .file p.names]
          (.ok (), { w with tree := tree, logging := some logging })
      | .error e => (.error (.file e), { w with logging := some bare })

def writeText (p : Path) (t : Text) : Action Unit := do
  change fun cwd tree => tree.write cwd p []
  match Utf8.encode t with
  | .ok bytes => change fun cwd tree => tree.write cwd p bytes
  | .error e => fail (.encoding e)

end Action

end Docsmith
