import Docsmith.Failure
import Docsmith.Log
import Docsmith.Model.Basic
import Docsmith.Regex.Matcher
import Docsmith.Regex.Posix

/-!
# Selecting namespaces and leaving out variables
-/

namespace Docsmith

def everything : Text := "all"

def regexLiteral? (t : Text) : Option Text :=
  match Text.after? "#\"" t with
  | none => none
  | some body =>
      if body.endsWith "\"" then some body.dropLast
      else if body.endsWith "\"\n" then some body.dropLast.dropLast
      else none

def Value.shown (v : Value) (say : Text → Failure) : Failure :=
  if v.writable then say v.literal else .value .integerTooLong

namespace Selector

def accepts (name : Text) : Selector → Bool
  | .exact n => name = n
  | .regex r => r.matches? name

def compileRegex (source : Text) : Except Failure Regex :=
  (Regex.compilePosix source).mapError .regex

/-- The pattern that a value stands for: a compiled expression, a mapping with one, or a
literal in a text; every other value stands for the name that is its text. -/
def ofValue (v : Value) : Except Failure Selector :=
  match v with
  | .selector s => .ok s
  | .regex r => .ok (.regex r)
  | .dict d =>
      match Dict.getText? d "regex" with
      | some (.str source) => (compileRegex source).map .regex
      | _ => .error (v.shown fun t => .value (.patternMapping t))
  | .str t =>
      match regexLiteral? t with
      | some source => (compileRegex source).map .regex
      | none => .ok (.exact t)
  | v => if v.writable then .ok (.exact v.text) else .error (.value .integerTooLong)

/-- The expression that an exclusion stands for; null excludes nothing. -/
def exclusionOfValue (v : Value) : Except Failure (Option Regex) :=
  match v with
  | .null => .ok none
  | .regex r | .selector (.regex r) => .ok (some r)
  | .str t => (compileRegex ((regexLiteral? t).getD t)).map some
  | v => .error (v.shown fun t => .value (.exclusion t))

/-- The patterns of a selector; none stands for everything.  A single pattern counts as a
list of one. -/
def allOfValue (v : Value) : Except Failure (Option (List Selector)) :=
  match v with
  | .null => .ok none
  | .list items | .tuple items | .set items => (items.mapM ofValue).map some
  | .bytes b => .ok (some (b.map fun n => .exact (Text.ofNat n.toNat)))
  | .str t => if t = everything then .ok none else (ofValue (.str t)).map fun s => some [s]
  | .regex _ | .dict _ | .selector _ => (ofValue v).map fun s => some [s]
  | _ => .error .wrongKind

end Selector

def Namespace.acceptedBy (patterns : List Selector) (ns : Namespace) : Bool :=
  match ns.name with
  | none => false
  | some name => patterns.any (·.accepts name)

def selectNamespaces (patterns : Option (List Selector)) (nss : List Namespace) : List Namespace :=
  match patterns with
  | none => nss
  | some patterns => nss.filter (·.acceptedBy patterns)

def excludes (exclusion : Option Regex) (v : Var) : Bool :=
  match exclusion with
  | none => false
  | some r => r.matches? v.name

def exclusionRecord (ns : Namespace) (v : Var) : LogRecord :=
  ⟨loggerName "filters", .info, "Excluding var " ++ ns.qualify v⟩

def removeExcluded (exclusion : Option Regex) (nss : List Namespace) : List Namespace :=
  nss.map fun ns => { ns with publics := ns.publics.filter fun v => !excludes exclusion v }

def exclusionLog (exclusion : Option Regex) (nss : List Namespace) : List LogRecord :=
  nss.flatMap fun ns => (ns.publics.filter (excludes exclusion)).map (exclusionRecord ns)

end Docsmith
