import Docsmith.Failure
import Docsmith.Value.Literal

/-!
# Values as JSON

Entries stand in the order of their keys, each level is indented by two spaces, and only
ASCII is written.  A value that the format does not know is written as its text.
-/

namespace Docsmith.Value

/-! ## Strings -/

def jsonEscapes : List (Nat × CodePoint) :=
  [(0x22, '"'), (0x5C, '\\'), (0x0A, 'n'), (0x0D, 'r'), (0x09, 't'), (0x0C, 'f'), (0x08, 'b')]

def jsonUnit (n : Nat) : Text := "\\u" ++ Text.padLeft 4 '0' (Text.hex n)

def jsonChar (c : CodePoint) : Text :=
  match jsonEscapes.lookup c.toNat with
  | some letter => '\\' :: [letter]
  | none =>
      if 0x20 ≤ c.toNat && c.toNat ≤ 0x7E then [c]
      else if c.toNat < 0x10000 then jsonUnit c.toNat
      else
        let n := c.toNat - 0x10000
        jsonUnit (0xD800 + n / 0x400) ++ jsonUnit (0xDC00 + n % 0x400)

def jsonText (t : Text) : Text := "\"" ++ t.flatMap jsonChar ++ "\""

/-! ## Keys -/

def numberLe : Value → Value → Bool
  | .float x, .float y => ((x.compare? y).map (·.isLE)).getD false
  | .float x, w => (((w.integer?.bind x.compareInt)).map (·.isLE)).getD false
  | v, .float y => (((v.integer?.bind y.compareInt)).map (·.isGE)).getD false
  | v, w =>
      match v.integer?, w.integer? with
      | some m, some n => m ≤ n
      | _, _ => false

def isNumber : Value → Bool
  | .bool _ | .int _ | .float _ => true
  | _ => false

def isString : Value → Bool
  | .str _ => true
  | _ => false

def keyLe : Value → Value → Bool
  | .str s, .str t => Text.le s t
  | v, w => numberLe v w

def sortEntries (d : Dict) : Except Failure Dict :=
  if d.length ≤ 1 || d.all (fun e => e.1.isString) || d.all (fun e => e.1.isNumber) then
    .ok (d.mergeSort fun a b => keyLe a.1 b.1)
  else .error .wrongKind

def jsonInt (n : Int) : Except Failure Text :=
  if Form.integerFits n then .ok (Text.ofInt n) else .error (.value .integerTooLong)

def jsonKey : Value → Except Failure Text
  | .str s => .ok (jsonText s)
  | .null => .ok "\"null\""
  | .bool true => .ok "\"true\""
  | .bool false => .ok "\"false\""
  | .int n => (jsonInt n).map fun t => "\"" ++ t ++ "\""
  | .float x => .ok ("\"" ++ x.text Binary64.dataStyle ++ "\"")
  | _ => .error .wrongKind

/-! ## Values -/

def jsonBreak (level : Nat) : Text := Text.newline :: Text.repeated (2 * level) ' '

def jsonBlock (opener closer : Text) (level : Nat) (parts : List Text) : Text :=
  if parts.isEmpty then opener ++ closer
  else
    opener ++ jsonBreak (level + 1) ++ Text.join ("," ++ jsonBreak (level + 1)) parts
      ++ jsonBreak level ++ closer

def jsonAtom : Value → Except Failure Text
  | .null => .ok "null"
  | .bool true => .ok "true"
  | .bool false => .ok "false"
  | .int n => jsonInt n
  | .float x => .ok (x.text Binary64.dataStyle)
  | .str s => .ok (jsonText s)
  | v => if v.writable then .ok (jsonText v.text) else .error (.value .integerTooLong)

def depth : Value → Nat
  | .list items | .tuple items => depthItems items + 1
  | .dict entries => depthEntries entries + 1
  | _ => 0
where
  depthItems : List Value → Nat
    | [] => 0
    | v :: vs => max (depth v) (depthItems vs)
  depthEntries : List (Value × Value) → Nat
    | [] => 0
    | (_, v) :: es => max (depth v) (depthEntries es)

def jsonWithin : Nat → Nat → Value → Except Failure Text
  | fuel + 1, level, .list items | fuel + 1, level, .tuple items => do
      return jsonBlock "[" "]" level (← items.mapM (jsonWithin fuel (level + 1)))
  | fuel + 1, level, .dict entries => do
      let parts ← (← sortEntries entries).mapM fun e => do
        let k ← jsonKey e.1
        return k ++ ": " ++ (← jsonWithin fuel (level + 1) e.2)
      return jsonBlock "\x7b" "\x7d" level parts
  | _, _, v => jsonAtom v

def json (v : Value) : Except Failure Text := jsonWithin (v.depth + 1) 0 v

end Docsmith.Value
