import Docsmith.Number.Shortest
import Docsmith.Regex.Basic
import Docsmith.Text.Utf8

/-!
# Values

Options, metadata and the fields of documented entries hold values of many kinds.  A
dictionary keeps its entries in insertion order, and its keys are compared by value: an
integer, a float and a truth value may be the same key.  A set is kept in that order too, though
no order is promised for it.
-/

namespace Docsmith

inductive Selector where
  | exact (name : Text)
  | regex (r : Regex)
deriving DecidableEq, Repr

structure Day where
  year : Nat
  month : Nat
  day : Nat
deriving DecidableEq, Repr

structure Moment where
  day : Day
  hour : Nat
  minute : Nat
  second : Nat
  micro : Nat
  offset : Option Int
deriving DecidableEq, Repr

inductive Value where
  | null
  | bool (b : Bool)
  | int (n : Int)
  | float (x : Binary64)
  | str (s : Text)
  | bytes (b : Bytes)
  | list (items : List Value)
  | tuple (items : List Value)
  | set (items : List Value)
  | dict (entries : List (Value × Value))
  | regex (r : Regex)
  | path (p : Text)
  | date (d : Day)
  | moment (m : Moment)
  | selector (s : Selector)
  | known (v : Value)
  | pending (directory : Text)
  | handler
deriving Repr

instance : Inhabited Value := ⟨.null⟩

abbrev Dict := List (Value × Value)

namespace Value

def integer? : Value → Option Int
  | .bool b => some (if b then 1 else 0)
  | .int n => some n
  | _ => none

def isKey : Value → Bool
  | .list _ | .tuple _ | .set _ | .dict _ => false
  | _ => true

def sameKey : Value → Value → Bool
  | .null, .null => true
  | .float x, .float y => x.equal y
  | .float x, w => (w.integer?.map x.equalInt).getD false
  | v, .float y => (v.integer?.map y.equalInt).getD false
  | .str s, .str t => s = t
  | .bytes b, .bytes c => b = c
  | .regex r, .regex s => r.same s
  | .path p, .path q => p = q
  | .date d, .date e => d = e
  | .moment m, .moment n => m = n
  | .selector s, .selector t => s = t
  | v, w =>
      match v.integer?, w.integer? with
      | some m, some n => m = n
      | _, _ => false

def truthy : Value → Bool
  | .null => false
  | .bool b => b
  | .int n => n ≠ 0
  | .float (.finite _ m _) => m ≠ 0
  | .str s => !s.isEmpty
  | .bytes b => !b.isEmpty
  | .list items | .tuple items | .set items => !items.isEmpty
  | .dict entries => !entries.isEmpty
  | _ => true

def isNull : Value → Bool
  | .null => true
  | _ => false

def isText (t : Text) : Value → Bool
  | .str s => s = t
  | _ => false

def ofText? (t : Option Text) : Value := (t.map .str).getD .null

end Value

namespace Dict

def get? (d : Dict) (key : Value) : Option Value :=
  (d.find? fun e => e.1.sameKey key).map Prod.snd

def getText? (d : Dict) (key : Text) : Option Value := get? d (.str key)

def insert (key value : Value) : Dict → Dict
  | [] => [(key, value)]
  | e :: r => if e.1.sameKey key then (e.1, value) :: r else e :: insert key value r

def update (d e : Dict) : Dict := e.foldl (fun d p => insert p.1 p.2 d) d

def ofEntries (entries : List (Value × Value)) : Dict := update [] entries

end Dict

end Docsmith
