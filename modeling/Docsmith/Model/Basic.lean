import Docsmith.Value.Literal

/-!
# What is documented

A namespace holds public variables, and a variable may hold members.  Fields that
defaults can fill hold values of any kind, and null while they are not set.
-/

namespace Docsmith

structure VarFacts where
  name : Text
  kind : Text := "var"
  doc : Value := .null
  arglists : List Text := []
  noDoc : Value := .null
  added : Value := .null
  deprecated : Value := .null
  file : Value := .null
  line : Value := .null
  path : Value := .null
  attrs : Dict := []
deriving Repr

inductive Var where
  | mk (facts : VarFacts) (members : List Var)
deriving Repr

instance : Inhabited Var := ⟨.mk { name := [] } []⟩

def Var.facts : Var → VarFacts
  | .mk facts _ => facts

def Var.members : Var → List Var
  | .mk _ members => members

def Var.name (v : Var) : Text := v.facts.name

def Var.isMacro (v : Var) : Bool := v.facts.kind = "macro"

structure Namespace where
  name : Option Text
  doc : Value := .null
  publics : List Var := []
  noDoc : Value := .null
  added : Value := .null
  deprecated : Value := .null
  author : Value := .null
  attrs : Dict := []
deriving Repr

structure Document where
  name : Text
  content : Text
  path : Text
  title : Option Text := none
  format : Text := "markdown"
deriving DecidableEq, Repr

/-- The name of a namespace in text; a namespace without a name shows as `None`. -/
def Namespace.label (ns : Namespace) : Text := ns.name.getD "None"

def Namespace.qualify (ns : Namespace) (v : Var) : Text := ns.label ++ "/" ++ v.name

namespace Var

mutual
def map (f : VarFacts → VarFacts) : Var → Var
  | .mk facts members => .mk (f facts) (mapAll f members)

def mapAll (f : VarFacts → VarFacts) : List Var → List Var
  | [] => []
  | v :: vs => map f v :: mapAll f vs
end

mutual
def flatten : Var → List VarFacts
  | .mk facts members => facts :: flattenAll members

def flattenAll : List Var → List VarFacts
  | [] => []
  | v :: vs => flatten v ++ flattenAll vs
end

end Var

def Namespace.visited (ns : Namespace) : List (Option Text) :=
  ns.name :: (Var.flattenAll ns.publics).map fun f => some f.name

end Docsmith
