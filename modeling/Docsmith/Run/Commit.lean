import Docsmith.Failure
import Docsmith.Text.Blank
import Docsmith.Value.Literal

/-!
# The commit of a project

The commit is found by running a program in the project's directory.  It is looked up
when it is first asked for; a commit that was found is kept, and a failure is not.
-/

namespace Docsmith

inductive Outcome where
  | finished (result : ProcessResult)
  | notRun (reason : Text)
deriving DecidableEq, Repr

def Outcome.commit : Outcome → Except CommitFault Text
  | .finished result =>
      if result.exit = 0 then .ok result.out.strip else .error (.failed result)
  | .notRun reason => .error (.notRun reason)

def commitCommand : List Text := ["git", "rev-parse", "HEAD"]

structure Call where
  command : List Text
  directory : Text
deriving DecidableEq, Repr

/-- The outcomes of the calls to come, the last of which repeats; without outcomes the
program itself is run.  The calls made so far are kept. -/
structure Runner where
  outcomes : Option (List Outcome)
  calls : List Call := []
deriving DecidableEq, Repr

namespace Runner

def plainOutcome (t : FileTree) (cwd directory : Path) : Outcome :=
  if t.isDirectory cwd directory then
    .finished ⟨128, [],
      "fatal: not a git repository (or any of the parent directories): .git\n"⟩
  else if t.exists? cwd directory then .notRun (FileFault.notDirectory directory.text).message
  else .notRun (FileFault.notFound directory.text).message

def outcome (r : Runner) (t : FileTree) (cwd directory : Path) : Outcome :=
  match r.outcomes with
  | none => plainOutcome t cwd directory
  | some outcomes =>
      ((outcomes[r.calls.length]?).or outcomes.getLast?).getD (.finished ⟨0, [], []⟩)

def run (r : Runner) (t : FileTree) (cwd directory : Path) :
    Except CommitFault Text × Runner :=
  ((r.outcome t cwd directory).commit,
   { r with calls := r.calls ++ [⟨commitCommand, directory.text⟩] })

end Runner

inductive Commit where
  | known (v : Value)
  | pending (directory : Path)
deriving Repr

namespace Commit

def toValue : Commit → Value
  | .known v => .known v
  | .pending directory => .pending directory.text

def get (c : Commit) (r : Runner) (t : FileTree) (cwd : Path) :
    Except CommitFault Value × Commit × Runner :=
  match c with
  | .known v => (.ok v, c, r)
  | .pending directory =>
      match r.run t cwd directory with
      | (.ok text, r) => (.ok (.str text), .known (.str text), r)
      | (.error e, r) => (.error e, c, r)

end Commit

end Docsmith
