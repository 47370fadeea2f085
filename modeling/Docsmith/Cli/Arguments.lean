import Docsmith.Text.Digit
import Docsmith.Text.Quoted

/-!
# Arguments of the command line

Long flags may be shortened as long as they stay unambiguous, their values follow them or
stand behind an equals sign, and short flags may be written together.  The one word that
is neither a flag nor a value is the path of the project.
-/

namespace Docsmith.Cli

inductive Flag where
  | help
  | verbose
  | logFile
  | language
  | writer
  | outputPath
  | sourcePath
  | namespaceName
  | excludeVars
  | docPath
  | argPath
deriving DecidableEq, Repr

namespace Flag

def all : List Flag :=
  [help, verbose, logFile, language, writer, outputPath, sourcePath, namespaceName, excludeVars,
   docPath, argPath]

def names : Flag → List Text
  | help => ["-h", "--help"]
  | verbose => ["-v", "--verbose"]
  | logFile => ["--log-file"]
  | language => ["--language"]
  | writer => ["--writer"]
  | outputPath => ["--output-path"]
  | sourcePath => ["--source-path"]
  | namespaceName => ["--namespace"]
  | excludeVars => ["--exclude-vars"]
  | docPath => ["--doc-path"]
  | argPath => ["--arg-path"]

def label (f : Flag) : Text := Text.join "/" f.names

def takesValue : Flag → Bool
  | help | verbose => false
  | _ => true

def spellings : List (Text × Flag) := all.flatMap fun f => f.names.map (·, f)

end Flag

inductive UsageError where
  | ambiguous (given : Text) (candidates : List Text)
  | missingValue (f : Flag)
  | unusedValue (f : Flag) (given : Text)
  | badChoice (f : Flag) (given : Text) (choices : List Text)
  | unrecognized (words : List Text)
deriving DecidableEq, Repr

def UsageError.message : UsageError → Text
  | .ambiguous given candidates =>
      "ambiguous option: " ++ given ++ " could match " ++ Text.join ", " candidates
  | .missingValue f => "argument " ++ f.label ++ ": expected one argument"
  | .unusedValue f given =>
      "argument " ++ f.label ++ ": ignored explicit argument " ++ given.quoted
  | .badChoice f given choices =>
      "argument " ++ f.label ++ ": invalid choice: " ++ given.quoted ++ " (choose from "
        ++ Text.join ", " (choices.map Text.quoted) ++ ")"
  | .unrecognized words => "unrecognized arguments: " ++ Text.join " " words

inductive Stop where
  | help
  | misuse (e : UsageError)
deriving DecidableEq, Repr

structure Arguments where
  verbose : Bool := false
  logFile : Option Text := none
  path : Text := "."
  language : Option Text := none
  writer : Option Text := none
  outputPath : Option Text := none
  sourcePaths : List Text := []
  namespaces : List Text := []
  excludeVars : Option Text := none
  docPaths : List Text := []
  argPaths : List Text := []
deriving DecidableEq, Repr

/-! ## Words -/

/-- What stands in one word with a flag: nothing, a value behind an equals sign, or more
letters. -/
inductive Attached where
  | nothing
  | value (t : Text)
  | letters (t : Text)
deriving DecidableEq, Repr

inductive Word where
  | plain (t : Text)
  | separator
  | flag (f : Flag) (attached : Attached)
  | unknown (t : Text)
deriving DecidableEq, Repr

def isNegativeNumber (t : Text) : Bool :=
  match t with
  | m :: r =>
      let whole := r.takeWhile CodePoint.isDigit
      m = '-' && match r.drop whole.length with
        | [] => !whole.isEmpty
        | p :: f => p = '.' && !f.isEmpty && f.all CodePoint.isDigit
  | [] => false

def candidates (t : Text) : List (Text × Flag × Attached) :=
  if t.startsWith "--" then
    let (start, attached) := match Text.cut? '=' t with
      | some (start, value) => (start, Attached.value value)
      | none => (t, Attached.nothing)
    Flag.spellings.filterMap fun (name, f) =>
      if name.startsWith start then some (name, f, attached) else none
  else
    Flag.spellings.filterMap fun (name, f) =>
      if name = t.take 2 then some (name, f, .letters (t.drop 2))
      else if name.startsWith t then some (name, f, .nothing)
      else none

def Word.ofText (t : Text) : Except Stop Word :=
  if !t.startsWith "-" then .ok (.plain t)
  else match Flag.spellings.lookup t with
  | some f => .ok (.flag f .nothing)
  | none =>
      if t.length = 1 then .ok (.plain t)
      else
        let exact := (Text.cut? '=' t).bind fun (name, value) =>
          (Flag.spellings.lookup name).map fun f => Word.flag f (.value value)
        match exact with
        | some w => .ok w
        | none =>
            match candidates t with
            | [(_, f, attached)] => .ok (.flag f attached)
            | [] =>
                .ok (if isNegativeNumber t || t.contains (CodePoint.ofChar ' ') then .plain t
                  else .unknown t)
            | several => .error (.misuse (.ambiguous t (several.map Prod.fst)))

def Word.all : List Text → Except Stop (List Word)
  | [] => .ok []
  | t :: ts =>
      if t = "--" then .ok (.separator :: ts.map .plain)
      else do
        let w ← Word.ofText t
        return w :: (← Word.all ts)

/-! ## Flags and their values -/

def languages : List Text := ["clojure", "clojurescript"]

def Arguments.set (a : Arguments) (f : Flag) (v : Text) : Except Stop Arguments :=
  match f with
  | .help => .error .help
  | .verbose => .ok { a with verbose := true }
  | .logFile => .ok { a with logFile := some v }
  | .language =>
      if languages.contains v then .ok { a with language := some v }
      else .error (.misuse (.badChoice f v languages))
  | .writer => .ok { a with writer := some v }
  | .outputPath => .ok { a with outputPath := some v }
  | .sourcePath => .ok { a with sourcePaths := a.sourcePaths ++ [v] }
  | .namespaceName => .ok { a with namespaces := a.namespaces ++ [v] }
  | .excludeVars => .ok { a with excludeVars := some v }
  | .docPath => .ok { a with docPaths := a.docPaths ++ [v] }
  | .argPath => .ok { a with argPaths := a.argPaths ++ [v] }

def cluster (f : Flag) : Text → Except Stop (List Flag × Option Text)
  | [] => .error (.misuse (.unusedValue f []))
  | c :: r =>
      if c = '-' then .error (.misuse (.unusedValue f (c :: r)))
      else
        match Flag.spellings.lookup [CodePoint.ofChar '-', c] with
        | none => .ok ([f], some (CodePoint.ofChar '-' :: c :: r))
        | some g =>
            match r with
            | [] => .ok ([f, g], none)
            | e :: v =>
                if e = '=' then .error (.misuse (.unusedValue g v))
                else (cluster g (e :: v)).map fun (fs, left) => (f :: fs, left)

/-- What is known while words are taken: the arguments, whether the path was given, and
the words that nothing took. -/
structure Progress where
  arguments : Arguments := {}
  pathGiven : Bool := false
  extras : List Text := []

namespace Progress

def setPath (p : Progress) (t : Text) : Progress :=
  { p with arguments := { p.arguments with path := t }, pathGiven := true }

def setFlag (p : Progress) (f : Flag) (v : Text) : Except Stop Progress := do
  return { p with arguments := ← p.arguments.set f v }

def addExtra (p : Progress) (t : Text) : Progress := { p with extras := p.extras ++ [t] }

def take (p : Progress) : List Word → Except Stop Progress
  | [] => .ok p
  | .unknown t :: ws => (p.addExtra t).take ws
  | .separator :: ws =>
      if p.pathGiven then (p.addExtra "--").take ws
      else match ws with
        | .plain t :: ws => (p.setPath t).take ws
        | ws => p.take ws
  | .plain t :: ws =>
      if p.pathGiven then (p.addExtra t).take ws
      else match ws with
        | .separator :: ws => (p.setPath t).take ws
        | ws => (p.setPath t).take ws
  | .flag f .nothing :: ws => do
      if f.takesValue then
        match ws with
        | .plain t :: ws => (← p.setFlag f t).take ws
        | _ => .error (.misuse (.missingValue f))
      else (← p.setFlag f []).take ws
  | .flag f (.value v) :: ws => do
      if f.takesValue then (← p.setFlag f v).take ws
      else .error (.misuse (.unusedValue f v))
  | .flag f (.letters t) :: ws => do
      if f.takesValue then (← p.setFlag f t).take ws
      else
        let (fs, left) ← cluster f t
        let p := left.elim p p.addExtra
        (← fs.foldlM (fun p g => p.setFlag g []) p).take ws
termination_by ws => ws.length

end Progress

def Arguments.parse (argv : List Text) : Except Stop Arguments := do
  let p ← Progress.take {} (← Word.all argv)
  if p.extras.isEmpty then return p.arguments
  else .error (.misuse (.unrecognized p.extras))

end Docsmith.Cli
