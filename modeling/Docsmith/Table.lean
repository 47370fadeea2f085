/-!
# Tables in insertion order

A table is a list of key and value pairs.  Writing a key that is present keeps its
place and replaces its value; a new key goes to the end.
-/

namespace Docsmith

universe u v

abbrev Table (κ : Type u) (ν : Type v) := List (κ × ν)

namespace Table

variable {κ : Type u} {ν : Type v} [DecidableEq κ]

def get? (t : Table κ ν) (k : κ) : Option ν :=
  (t.find? fun e => e.1 = k).map Prod.snd

def has (t : Table κ ν) (k : κ) : Bool := t.any fun e => e.1 = k

def insert (k : κ) (v : ν) : Table κ ν → Table κ ν
  | [] => [(k, v)]
  | e :: r => if e.1 = k then (e.1, v) :: r else e :: insert k v r

def update (t u : Table κ ν) : Table κ ν := u.foldl (fun t e => insert e.1 e.2 t) t

def ofList (entries : List (κ × ν)) : Table κ ν := update [] entries

def erase (t : Table κ ν) (k : κ) : Table κ ν := t.filter fun e => e.1 ≠ k

end Table

end Docsmith
