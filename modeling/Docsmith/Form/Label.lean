import Docsmith.Form.Basic

/-!
# Labels of forms

A metadata map may have any form as a key.  The name of the entry is then a label: the
form written out with its kind and parts.
-/

namespace Docsmith.Form

def maxIntegerDigits : Nat := 4300

def integerFits (n : Int) : Bool := (Nat.repr n.natAbs).length ≤ maxIntegerDigits

mutual
def writable : Form → Bool
  | .int n => integerFits n
  | .coll _ _ items => writableItems items
  | _ => true

def writableItems : List Form → Bool
  | [] => true
  | f :: fs => writable f && writableItems fs
end

mutual
def labelable : Form → Bool
  | .int n => integerFits n
  | .symbol _ attrs => labelableAttrs attrs
  | .coll _ _ items => labelableItems items
  | _ => true

def labelableItems : List Form → Bool
  | [] => true
  | f :: fs => labelable f && labelableItems fs

def labelableAttrs : List (Text × Form) → Bool
  | [] => true
  | (_, f) :: r => labelable f && labelableAttrs r
end

mutual
def inner : Form → Text
  | .nil => "None"
  | .bool true => "True"
  | .bool false => "False"
  | .int n => Text.ofInt n
  | .float x => x.text Binary64.plainStyle
  | .str s => s.quoted
  | .symbol name attrs =>
      "Symbol(name=" ++ name.quoted ++ ", meta=\x7b" ++ Text.join ", " (innerAttrs attrs) ++ "\x7d)"
  | .keyword name => "Keyword(name=" ++ name.quoted ++ ")"
  | .regex source => "Regex(source=" ++ source.quoted ++ ")"
  | .char name => "Char(value=" ++ name.quoted ++ ")"
  | .coll _ _ [item] => "(" ++ inner item ++ ",)"
  | .coll _ _ items => "(" ++ Text.join ", " (innerItems items) ++ ")"

def innerItems : List Form → List Text
  | [] => []
  | f :: fs => inner f :: innerItems fs

def innerAttrs : List (Text × Form) → List Text
  | [] => []
  | (k, f) :: r => (k.quoted ++ ": " ++ inner f) :: innerAttrs r
end

def label : Form → Text
  | .str s => s
  | .symbol name _ => name
  | .keyword name => ':' :: name
  | f => inner f

def label? : Form → Option Text
  | .symbol name _ => some name
  | f => if f.labelable then some f.label else none

end Docsmith.Form
