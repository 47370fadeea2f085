import Docsmith.Form.Label

/-!
# Writing forms

The compact source text of a form.  Metadata is not written.
-/

namespace Docsmith.Form

def escape (s : Text) : Text :=
  s.flatMap fun (c : CodePoint) => if c = '\\' || c = '"' then ['\\', c] else [c]

def brackets : Shape → Text × Text
  | .list => ("(", ")")
  | .vector => ("[", "]")
  | .set => ("#\x7b", "\x7d")
  | .map => ("\x7b", "\x7d")

mutual
def render : Form → Text
  | .nil => "nil"
  | .bool true => "true"
  | .bool false => "false"
  | .int n => Text.ofInt n
  | .float x => x.text Binary64.plainStyle
  | .str s => "\"" ++ escape s ++ "\""
  | .symbol name _ => name
  | .keyword name => ':' :: name
  | .regex source => "#\"" ++ source ++ "\""
  | .char name => '\\' :: name
  | .coll shape _ items =>
      (brackets shape).1 ++ Text.join " " (renderItems items) ++ (brackets shape).2

def renderItems : List Form → List Text
  | [] => []
  | f :: fs => render f :: renderItems fs
end

end Docsmith.Form
