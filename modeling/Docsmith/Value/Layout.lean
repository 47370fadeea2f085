import Docsmith.Text.Blank
import Docsmith.Text.Lines
import Docsmith.Value.Json

/-!
# Values laid out in lines

The literal of a value on one line if it fits into eighty columns.  What does not fit is
broken: lists and dictionaries after each part, texts after lines and then between words.
-/

namespace Docsmith

namespace Text

def linesKept (t : Text) : List Text :=
  go [] t
where
  go (line : Text) : Text → List Text
    | [] => if line.isEmpty then [] else [line.reverse]
    | c :: r =>
        if c = '\r' then
          match r with
          | d :: s =>
              if d = '\n' then (d :: c :: line).reverse :: go [] s
              else (c :: line).reverse :: go [] (d :: s)
          | [] => [(c :: line).reverse]
        else if isLineBoundary c then (c :: line).reverse :: go [] r
        else go (c :: line) r

def wordsKept (t : Text) : List Text :=
  go [] false t
where
  go (word : Text) (blank : Bool) : Text → List Text
    | [] => if word.isEmpty then [] else [word.reverse]
    | c :: r =>
        if c.isBlank then go (c :: word) true r
        else if blank then word.reverse :: go [c] false r
        else go (c :: word) false r

end Text

namespace Layout

def width : Nat := 80

def spaces (n : Nat) : Text := Text.repeated n ' '

def stacked (indent : Nat) (parts : List Text) : Text :=
  Text.join ("," ++ Text.newline :: spaces indent) parts

def chunks (room allowance : Nat) (lastLine : Bool) : Text → List Text → List Text
  | current, [] => if current.isEmpty then [] else [current.quoted]
  | current, w :: ws =>
      let taken := if ws.isEmpty && lastLine then allowance else 0
      let candidate := current ++ w
      if candidate.quoted.length + taken > room then
        (if current.isEmpty then [] else [current.quoted]) ++ chunks room allowance lastLine w ws
      else chunks room allowance lastLine candidate ws

/-- The literals of the lines of a text, those that do not fit cut between words. -/
def lineChunks (room allowance : Nat) : List Text → List Text
  | [] => []
  | line :: rest =>
      let taken := if rest.isEmpty then allowance else 0
      (if line.quoted.length + taken ≤ room then [line.quoted]
       else chunks room allowance rest.isEmpty [] line.wordsKept)
        ++ lineChunks room allowance rest

def brokenText (level indent allowance : Nat) (t : Text) : Text :=
  if t.isEmpty then t.quoted
  else
    let alone := level = 1
    let (indent, allowance) := if alone then (indent + 1, allowance + 1) else (indent, allowance)
    match lineChunks (width - indent) allowance t.linesKept with
    | [one] => one
    | parts =>
        let body := Text.join (Text.newline :: spaces indent) parts
        if alone then "(" ++ body ++ ")" else body

def fours : Bytes → List Bytes
  | a :: b :: c :: d :: r => [a, b, c, d] :: fours r
  | [] => []
  | r => [r]

def byteChunks (room allowance : Nat) : Bytes → List Bytes → List Text
  | current, [] => if current.isEmpty then [] else [current.quoted]
  | current, part :: parts =>
      let room := if part.length < 4 then room - allowance else room
      let candidate := current ++ part
      if candidate.quoted.length > room then
        (if current.isEmpty then [] else [current.quoted]) ++ byteChunks room allowance part parts
      else byteChunks room allowance candidate parts

def brokenBytes (level indent allowance : Nat) (b : Bytes) : Text :=
  if b.length ≤ 4 then b.quoted
  else
    let alone := level = 1
    let (indent, allowance) := if alone then (indent + 1, allowance + 1) else (indent, allowance)
    let body := Text.join (Text.newline :: spaces indent)
      (byteChunks (width - indent) allowance [] (fours b))
    if alone then "(" ++ body ++ ")" else body

def atomLayout (level indent allowance : Nat) (v : Value) : Text :=
  if v.literal.length + indent + allowance ≤ width then v.literal
  else
    match v with
    | .str s => brokenText (level + 1) indent allowance s
    | .bytes b => brokenBytes (level + 1) indent allowance b
    | .selector (.exact name) =>
        let lead : Text := "ExactPattern(value="
        let start := indent + lead.length
        let inner : Text :=
          if name.quoted.length + start + allowance ≤ width then name.quoted
          else brokenText (level + 2) start allowance name
        lead ++ inner ++ ")"
    | v => v.literal

/-! ## Sets -/

def kindName : Value → Text
  | .null => "NoneType"
  | .bool _ => "bool"
  | .int _ => "int"
  | .float _ => "float"
  | .str _ => "str"
  | .bytes _ => "bytes"
  | .date _ => "datetime.date"
  | .moment _ => "datetime.datetime"
  | _ => []

def itemLe : Value → Value → Bool
  | .bytes b, .bytes c =>
      let text (b : Bytes) : Text := b.map fun n => CodePoint.ofNat n.toNat
      Text.le (text b) (text c)
  | v, w =>
      if v.isNumber && w.isNumber then Value.numberLe v w
      else if kindName v = kindName w then Text.le v.text w.text
      else Text.le (kindName v) (kindName w)

def atomLayouts (level indent allowance : Nat) : List Value → List Text
  | [] => []
  | v :: vs =>
      atomLayout level indent (if vs.isEmpty then allowance else 1) v
        :: atomLayouts level indent allowance vs

/-! ## Collections -/

mutual
def layout (level indent allowance : Nat) (v : Value) : Text :=
  if v.literal.length + indent + allowance ≤ width then v.literal
  else
    match v with
    | .dict entries =>
        "\x7b" ++ stacked (indent + 1) (entryLayouts (level + 1) (indent + 1) (allowance + 1) entries)
          ++ "\x7d"
    | .list items =>
        "[" ++ stacked (indent + 1) (itemLayouts (level + 1) (indent + 1) (allowance + 1) items)
          ++ "]"
    | .tuple items =>
        let closer : Text := if items.length = 1 then ",)" else ")"
        "(" ++ stacked (indent + 1)
          (itemLayouts (level + 1) (indent + 1) (allowance + closer.length) items) ++ closer
    | .set [] => v.literal
    | .set items =>
        "\x7b" ++ stacked (indent + 1)
          (atomLayouts (level + 1) (indent + 1) (allowance + 1) (items.mergeSort itemLe)) ++ "\x7d"
    | v => atomLayout level indent allowance v

def itemLayouts (level indent allowance : Nat) : List Value → List Text
  | [] => []
  | v :: vs =>
      layout level indent (if vs.isEmpty then allowance else 1) v
        :: itemLayouts level indent allowance vs

def entryLayouts (level indent allowance : Nat) : List (Value × Value) → List Text
  | [] => []
  | (k, v) :: es =>
      (k.literal ++ ": "
          ++ layout level (indent + k.literal.length + 2) (if es.isEmpty then allowance else 1) v)
        :: entryLayouts level indent allowance es
end

end Layout

def Value.layout (v : Value) : Text := Layout.layout 0 0 0 v

end Docsmith
