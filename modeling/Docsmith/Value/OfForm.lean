import Docsmith.Form.Reader
import Docsmith.Regex.Posix
import Docsmith.Value.Basic

/-!
# The value of a form

Maps become dictionaries, the other collections lists, and keywords, symbols and
characters their names.
-/

namespace Docsmith

/-- A form has no value if a pattern in it is refused, or if a map in it has a
collection as a key. -/
inductive ValueFault where
  | pattern (fault : Regex.Fault)
  | unusableKey
deriving DecidableEq, Repr

namespace Form

mutual
def toValue : Form → Except ValueFault Value
  | .nil => .ok .null
  | .bool b => .ok (.bool b)
  | .int n => .ok (.int n)
  | .float x => .ok (.float x)
  | .str s => .ok (.str s)
  | .symbol name _ | .keyword name | .char name => .ok (.str name)
  | .regex source => (Regex.compilePosix source).map Value.regex |>.mapError ValueFault.pattern
  | .coll .map _ items => do return .dict (← toEntries items [])
  | .coll _ _ items => do return .list (← toValues items)

def toValues : List Form → Except ValueFault (List Value)
  | [] => .ok []
  | f :: fs => do
      let v ← toValue f
      return v :: (← toValues fs)

def toEntries : List Form → Dict → Except ValueFault Dict
  | k :: f :: fs, acc => do
      let key ← toValue k
      let value ← toValue f
      if key.isKey then toEntries fs (Dict.insert key value acc) else .error .unusableKey
  | _, acc => .ok acc
end

end Form

end Docsmith
