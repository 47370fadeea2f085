import Docsmith.Number.Shortest
import Docsmith.Table
import Docsmith.Text.Quoted

/-!
# Forms

The data that source text denotes.  Forms are never evaluated.  A collection remembers
the line of its opening delimiter, and a symbol carries the metadata written before it.
-/

namespace Docsmith

inductive Shape where
  | list
  | vector
  | set
  | map
deriving DecidableEq, Repr

inductive Form where
  | nil
  | bool (b : Bool)
  | int (n : Int)
  | float (x : Binary64)
  | str (s : Text)
  | symbol (name : Text) (attrs : List (Text × Form))
  | keyword (name : Text)
  | regex (source : Text)
  | char (name : Text)
  | coll (shape : Shape) (line : Nat) (items : List Form)
deriving Repr

instance : Inhabited Form := ⟨.nil⟩

abbrev Attrs := Table Text Form

namespace Form

def ofName (name : Text) : Form := .symbol name []

def pairs : List Form → List (Form × Form)
  | k :: v :: r => (k, v) :: pairs r
  | _ => []

/-! ## Equality

Numbers are equal by value, whatever their kind, and `true` counts as one.  Symbols are
equal by name, and collections by their items, whatever their shape. -/

def integer? : Form → Option Int
  | .bool b => some (if b then 1 else 0)
  | .int n => some n
  | _ => none

mutual
def equal : Form → Form → Bool
  | .nil, .nil => true
  | .float x, .float y => x.equal y
  | .float x, g => (g.integer?.map x.equalInt).getD false
  | .str s, .str t => s = t
  | .symbol s _, .symbol t _ => s = t
  | .keyword s, .keyword t => s = t
  | .regex s, .regex t => s = t
  | .char s, .char t => s = t
  | .coll _ _ xs, .coll _ _ ys => equalItems xs ys
  | f, .float y => (f.integer?.map y.equalInt).getD false
  | f, g =>
      match f.integer?, g.integer? with
      | some m, some n => m = n
      | _, _ => false

def equalItems : List Form → List Form → Bool
  | [], [] => true
  | f :: fs, g :: gs => equal f g && equalItems fs gs
  | _, _ => false
end

def lookup? (key : Form) : List (Form × Form) → Option Form
  | [] => none
  | (k, v) :: r => if k.equal key then some v else lookup? key r

/-! ## Lines -/

mutual
def mapLines (f : Nat → Nat) : Form → Form
  | .symbol name attrs => .symbol name (mapLinesAttrs f attrs)
  | .coll shape line items => .coll shape (f line) (mapLinesItems f items)
  | other => other

def mapLinesItems (f : Nat → Nat) : List Form → List Form
  | [] => []
  | x :: xs => mapLines f x :: mapLinesItems f xs

def mapLinesAttrs (f : Nat → Nat) : List (Text × Form) → List (Text × Form)
  | [] => []
  | (k, x) :: xs => (k, mapLines f x) :: mapLinesAttrs f xs
end

/-! ## Kinds -/

def isSymbol : Form → Bool
  | .symbol .. => true
  | _ => false

def isStr : Form → Bool
  | .str _ => true
  | _ => false

def isVector : Form → Bool
  | .coll .vector .. => true
  | _ => false

end Form

end Docsmith
