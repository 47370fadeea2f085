import Docsmith.Failure
import Docsmith.Value.Literal

/-!
# Markup

A page is a sequence of fragments: markup that is written as it is, and fields, which hold
values and are written with the special characters escaped.
-/

namespace Docsmith

inductive Fragment where
  | markup (t : Text)
  | field (v : Value)

abbrev Markup := List Fragment

namespace Markup

def entities : List (CodePoint × Text) :=
  [('&', "&amp;"), ('<', "&lt;"), ('>', "&gt;"), ('\'', "&#39;"), ('"', "&#34;")]

def escapeChar (c : CodePoint) : Text := (entities.lookup c).getD [c]

def escape (t : Text) : Text := t.flatMap escapeChar

def lit (t : Text) : Markup := [.markup t]

def field (v : Value) : Markup := [.field v]

def word (t : Text) : Markup := field (.str t)

def given (condition : Bool) (m : Markup) : Markup := if condition then m else []

def ifTrue (v : Value) (m : Value → Markup) : Markup := given v.truthy (m v)

end Markup

def Fragment.text : Fragment → Text
  | .markup t => t
  | .field v => Markup.escape v.text

def Fragment.writable : Fragment → Bool
  | .markup _ => true
  | .field v => v.writable

namespace Markup

def text (m : Markup) : Text := m.flatMap Fragment.text

def render (m : Markup) : Except Failure Text :=
  if m.all Fragment.writable then .ok m.text else .error (.value .integerTooLong)

end Markup

end Docsmith
