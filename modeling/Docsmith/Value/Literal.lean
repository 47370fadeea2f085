import Docsmith.Form.Label
import Docsmith.Value.Basic

/-!
# Values as text

The literal of a value shows its kind and parts; the plain text of a value is its
literal, except that strings, paths, days and moments stand for themselves.
-/

namespace Docsmith

def Selector.literal : Selector → Text
  | .exact name => "ExactPattern(value=" ++ name.quoted ++ ")"
  | .regex r => "RegexPattern(regex=" ++ r.literal ++ ")"

def Day.literal (d : Day) : Text :=
  "datetime.date(" ++ Text.ofNat d.year ++ ", " ++ Text.ofNat d.month ++ ", " ++ Text.ofNat d.day
    ++ ")"

def Day.text (d : Day) : Text :=
  Text.padLeft 4 '0' (Text.ofNat d.year) ++ "-" ++ Text.padLeft 2 '0' (Text.ofNat d.month) ++ "-"
    ++ Text.padLeft 2 '0' (Text.ofNat d.day)

namespace Moment

def twoDigits (n : Nat) : Text := Text.padLeft 2 '0' (Text.ofNat n)

def offsetText (offset : Int) : Text :=
  let seconds := offset.natAbs
  let sign : Text := if offset < 0 then "-" else "+"
  let short := sign ++ twoDigits (seconds / 3600) ++ ":" ++ twoDigits (seconds / 60 % 60)
  if seconds % 60 = 0 then short else short ++ ":" ++ twoDigits (seconds % 60)

/-- The offset as a span: days and the seconds of the last day, or only seconds. -/
def offsetLiteral (offset : Int) : Text :=
  if offset = 0 then "datetime.timezone.utc"
  else
    let days := Int.fdiv offset 86400
    let seconds := Int.fmod offset 86400
    let parts : List Text :=
      (if days = 0 then [] else ["days=" ++ Text.ofInt days])
        ++ (if seconds = 0 then [] else ["seconds=" ++ Text.ofInt seconds])
    "datetime.timezone(datetime.timedelta(" ++ Text.join ", " parts ++ "))"

def text (m : Moment) : Text :=
  m.day.text ++ " " ++ twoDigits m.hour ++ ":" ++ twoDigits m.minute ++ ":" ++ twoDigits m.second
    ++ (if m.micro = 0 then ([] : Text) else '.' :: Text.padLeft 6 '0' (Text.ofNat m.micro))
    ++ ((m.offset.map offsetText).getD [])

def literal (m : Moment) : Text :=
  let fine : List Text :=
    if m.micro ≠ 0 then [Text.ofNat m.second, Text.ofNat m.micro]
    else if m.second ≠ 0 then [Text.ofNat m.second]
    else []
  let numbers :=
    [Text.ofNat m.day.year, Text.ofNat m.day.month, Text.ofNat m.day.day, Text.ofNat m.hour,
     Text.ofNat m.minute] ++ fine
  let zone : List Text := (m.offset.map fun o => ["tzinfo=" ++ offsetLiteral o]).getD []
  "datetime.datetime(" ++ Text.join ", " (numbers ++ zone) ++ ")"

end Moment

namespace Bytes

def quotedByte (quote : CodePoint) (b : UInt8) : Text :=
  let c := CodePoint.ofNat b.toNat
  if c = quote || c = '\\' then ['\\', c]
  else if c = '\t' then "\\t"
  else if c = '\n' then "\\n"
  else if c = '\r' then "\\r"
  else if b.toNat < 0x20 || 0x7F ≤ b.toNat then "\\x" ++ Text.padLeft 2 '0' (Text.hex b.toNat)
  else [c]

/-- The literal of bytes.  Double quotes are used if only single quotes are inside. -/
def quoted (b : Bytes) : Text :=
  let quote : CodePoint := if b.contains 0x27 && !b.contains 0x22 then '"' else '\''
  "b" ++ [quote] ++ b.flatMap (quotedByte quote) ++ [quote]

end Bytes

namespace Value

mutual
def writable : Value → Bool
  | .int n => Form.integerFits n
  | .list items | .tuple items | .set items => writableItems items
  | .dict entries => writableEntries entries
  | .known v => writable v
  | _ => true

def writableItems : List Value → Bool
  | [] => true
  | v :: vs => writable v && writableItems vs

def writableEntries : List (Value × Value) → Bool
  | [] => true
  | (k, v) :: r => writable k && writable v && writableEntries r
end

mutual
def literal : Value → Text
  | .null => "None"
  | .bool true => "True"
  | .bool false => "False"
  | .int n => Text.ofInt n
  | .float x => x.text Binary64.plainStyle
  | .str s => s.quoted
  | .bytes b => b.quoted
  | .list items => "[" ++ Text.join ", " (literalItems items) ++ "]"
  | .tuple items =>
      "(" ++ Text.join ", " (literalItems items) ++ (if items.length = 1 then ",)" else ")")
  | .set items =>
      if items.isEmpty then "set()"
      else "\x7b" ++ Text.join ", " (literalItems items) ++ "\x7d"
  | .dict entries => "\x7b" ++ Text.join ", " (literalEntries entries) ++ "\x7d"
  | .regex r => r.literal
  | .path p => "PosixPath(" ++ p.quoted ++ ")"
  | .date d => d.literal
  | .moment m => m.literal
  | .selector s => s.literal
  | .known v => "Deferred(" ++ literal v ++ ")"
  | .pending _ => "Deferred(<pending>)"
  | .handler => "<function>"

def literalItems : List Value → List Text
  | [] => []
  | v :: vs => literal v :: literalItems vs

def literalEntries : List (Value × Value) → List Text
  | [] => []
  | (k, v) :: r => (literal k ++ ": " ++ literal v) :: literalEntries r
end

def text : Value → Text
  | .str s => s
  | .path p => p
  | .date d => d.text
  | .moment m => m.text
  | v => v.literal

end Value

end Docsmith
