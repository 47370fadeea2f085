import Docsmith.Failure
import Docsmith.Value.Literal

/-!
# Keys of options

An option may be written `:source-paths`, `source-paths` or `source_paths`; all of them
spell one key.
-/

namespace Docsmith

abbrev OptionTable := Table Text Value

def isColon (c : CodePoint) : Bool := c = ':'

def dropColons (t : Text) : Text := t.dropWhile isColon

def normalKey (key : Value) : Text := Text.replaceAll "-" "_" (dropColons key.text)

namespace OptionTable

/-- Options under their normal keys.  Of two spellings of one key the later one counts. -/
def normalize (d : Dict) : OptionTable :=
  d.foldl (fun t e => Table.insert (normalKey e.1) e.2 t) []

def toDict (t : OptionTable) : Dict := t.map fun e => (Value.str e.1, e.2)

/-- The options that a value stands for; what counts as false stands for none. -/
def ofValue (v : Value) : Except Failure OptionTable :=
  match v with
  | .dict d =>
      if d.all fun e => e.1.writable then .ok (normalize d) else .error (.value .integerTooLong)
  | v => if v.truthy then .error .noAttribute else .ok []

end OptionTable

end Docsmith
