import Docsmith.Form.ReadError
import Docsmith.Number.Arithmetic
import Docsmith.Number.Numeral
import Docsmith.Text.Case
import Docsmith.Value.Basic
import Docsmith.Yaml.Cursor

/-!
# The meaning of scalars

The kind of a plain scalar is found from its spelling, and the kind says how the text is
read.
-/

namespace Docsmith.Yaml

inductive ScalarKind where
  | str
  | null
  | bool
  | int
  | float
  | timestamp
  | binary
  /-- The key whose value is merged into its mapping. -/
  | merge
  /-- The key of a mapping's plain value. -/
  | value
deriving DecidableEq, Repr

/-! ## Spellings -/

def isDigitOrBar (c : CodePoint) : Bool := c.isAsciiDigit || c = '_'

def isDigits (t : Text) : Bool := t.head?.any CodePoint.isAsciiDigit && t.all isDigitOrBar

def isCount (t : Text) : Bool := isDigits t && t.head? ≠ some (CodePoint.ofChar '0')

def isSixtieth : Text → Bool
  | [b] => b.isAsciiDigit
  | [a, b] => 0x30 ≤ a.toNat && a.toNat ≤ 0x35 && b.isAsciiDigit
  | _ => false

def isSexagesimal (first : Text → Bool) (t : Text) : Bool :=
  match Text.splitOn ':' t with
  | whole :: place :: places => first whole && (place :: places).all isSixtieth
  | _ => false

def isLedBy (lead : Text) (p : CodePoint → Bool) (t : Text) : Bool :=
  match Text.after? lead t with
  | some r => !r.isEmpty && r.all p
  | none => false

def isIntText (t : Text) : Bool :=
  let body := (Binary64.takeSign t).2
  isLedBy "0b" (fun (c : CodePoint) => c = '0' || c = '1' || c = '_') body
    || isLedBy "0" (fun (c : CodePoint) => c.isOctalDigit || c = '_') body
    || body = "0" || isCount body
    || isLedBy "0x" (fun (c : CodePoint) => c.isHexDigit || c = '_') body
    || isSexagesimal isCount body

def isExponent : Text → Bool
  | [] => true
  | e :: s :: ds =>
      (e = 'e' || e = 'E') && (s = '-' || s = '+') && !ds.isEmpty && ds.all CodePoint.isAsciiDigit
  | _ => false

def isFloatText (t : Text) : Bool :=
  let body := (Binary64.takeSign t).2
  let exponentAfter (r : Text) : Bool := isExponent (r.dropWhile isDigitOrBar)
  match Text.cut? '.' body with
  | none => false
  | some ([], r) =>
      r = "inf" || r = "Inf" || r = "INF"
        || (body = t && (r = "nan" || r = "NaN" || r = "NAN"))
        || (body = t && r.head?.any CodePoint.isAsciiDigit && exponentAfter r)
  | some (whole, r) =>
      (isDigits whole && exponentAfter r) || (isSexagesimal isDigits whole && r.all isDigitOrBar)

/-! ## Days and moments -/

def takeNumber? (low high : Nat) (t : Text) : Option (Nat × Text) :=
  let digits := (t.take high).takeWhile CodePoint.isAsciiDigit
  if digits.length < low then none
  else some (Text.foldDigits 10 (digits.filterMap CodePoint.hexValue?), t.drop digits.length)

structure TimeText where
  hour : Nat
  minute : Nat
  second : Nat
  micro : Nat
  offset : Option (Bool × Nat × Nat)
deriving DecidableEq, Repr

def offset? (t : Text) : Option (Option (Bool × Nat × Nat)) := do
  match t with
  | [] => some none
  | _ =>
      match t.dropWhile fun (c : CodePoint) => c = ' ' || c = '\t' with
      | [c] => if c = 'Z' then some (some (false, 0, 0)) else none
      | c :: r =>
          if c = '+' || c = '-' then do
            let (hours, r) ← takeNumber? 1 2 r
            match r with
            | [] => some (some (c = '-', hours, 0))
            | colon :: r =>
                let (minutes, r) ← takeNumber? 2 2 r
                if colon = ':' && r.isEmpty then some (some (c = '-', hours, minutes)) else none
          else none
      | [] => none

def time? (t : Text) : Option TimeText := do
  let (hour, r) ← takeNumber? 1 2 t
  let (minute, r) ← takeNumber? 2 2 (← Text.after? ":" r)
  let (second, r) ← takeNumber? 2 2 (← Text.after? ":" r)
  let (micro, r) := match Text.after? "." r with
    | some f =>
        let digits := (f.takeWhile CodePoint.isAsciiDigit).filterMap CodePoint.hexValue?
        let six := (digits ++ List.replicate 6 0).take 6
        (Text.foldDigits 10 six, f.dropWhile CodePoint.isAsciiDigit)
    | none => (0, r)
  return ⟨hour, minute, second, micro, ← offset? r⟩

def timestamp? (t : Text) : Option (Day × Option TimeText) := do
  let (year, r) ← takeNumber? 4 4 t
  let (month, r) ← takeNumber? 1 2 (← Text.after? "-" r)
  let (day, r) ← takeNumber? 1 2 (← Text.after? "-" r)
  match r with
  | [] => return (⟨year, month, day⟩, none)
  | c :: rest =>
      if c = 'T' || c = 't' then return (⟨year, month, day⟩, some (← time? rest))
      else if c = ' ' || c = '\t' then
        let rest := rest.dropWhile fun (c : CodePoint) => c = ' ' || c = '\t'
        return (⟨year, month, day⟩, some (← time? rest))
      else none

def isTimestampText (t : Text) : Bool :=
  match timestamp? t with
  | some (_, none) => t.length = 10
  | some (_, some _) => true
  | none => false

def isLeapYear (year : Nat) : Bool := year % 4 = 0 && (year % 100 ≠ 0 || year % 400 = 0)

def daysIn (year month : Nat) : Nat :=
  if month = 2 then (if isLeapYear year then 29 else 28)
  else if [4, 6, 9, 11].contains month then 30
  else 31

def checkDay (d : Day) : Except Fault Unit :=
  if d.year = 0 then .error (.badScalar "year 0 is out of range")
  else if d.month = 0 || d.month > 12 then .error (.badScalar "month must be in 1..12")
  else if d.day = 0 || d.day > daysIn d.year d.month then
    .error (.badScalar "day is out of range for month")
  else .ok ()

def checkTime (t : TimeText) : Except Fault Unit :=
  if t.hour > 23 then .error (.badScalar "hour must be in 0..23")
  else if t.minute > 59 then .error (.badScalar "minute must be in 0..59")
  else if t.second > 59 then .error (.badScalar "second must be in 0..59")
  else .ok ()

def offsetSeconds : Bool × Nat × Nat → Except Fault Int
  | (negative, hours, minutes) =>
      let size : Int := hours * 3600 + minutes * 60
      let seconds := if negative then -size else size
      if size < 86400 then .ok seconds
      else
        let days := Int.fdiv seconds 86400
        let rest := Int.fmod seconds 86400
        let part : Text := if rest = 0 then [] else ", seconds=" ++ Text.ofInt rest
        .error (.badScalar ("offset must be a timedelta strictly between -timedelta(hours=24) and "
          ++ "timedelta(hours=24), not datetime.timedelta(days=" ++ Text.ofInt days ++ part ++ ")"))

def timestampValue (t : Text) : Except Fault Value := do
  match timestamp? t with
  | none => .error .noMatch
  | some (d, none) => do
      checkDay d
      return .date d
  | some (d, some time) => do
      let offset ← match time.offset with
        | none => pure none
        | some o => some <$> offsetSeconds o
      checkDay d
      checkTime time
      return .moment ⟨d, time.hour, time.minute, time.second, time.micro, offset⟩

/-! ## Kinds -/

def boolNames : List (Text × Bool) :=
  [("yes", true), ("no", false), ("true", true), ("false", false), ("on", true), ("off", false)]

def isCased (names : List Text) (t : Text) : Bool :=
  let upper (c : CodePoint) : CodePoint :=
    if c.isAsciiLower then CodePoint.ofNat (c.toNat - 32) else c
  names.any fun n => t = n || t = n.map upper || t = (n.take 1).map upper ++ n.drop 1

/-- The kind of a plain scalar.  A line feed at its end does not count. -/
def ScalarKind.ofText (t : Text) : ScalarKind :=
  let core := if t.getLast? = some Text.newline then t.dropLast else t
  if isCased (boolNames.map Prod.fst) core then .bool
  else if isFloatText core then .float
  else if isIntText core then .int
  else if core = "<<" then .merge
  else if t.isEmpty || core = "~" || isCased ["null"] core then .null
  else if isTimestampText core then .timestamp
  else if core = "=" then .value
  else .str

def ScalarKind.ofTag? (tag : Text) : Option ScalarKind :=
  (Text.after? "tag:yaml.org,2002:" tag).bind fun name =>
    [(("str" : Text), ScalarKind.str), ("null", .null), ("bool", .bool), ("int", .int),
     ("float", .float), ("timestamp", .timestamp), ("binary", .binary), ("merge", .merge),
     ("value", .value)].lookup name

/-! ## Reading -/

def Fault.ofNumeral : Numeral.Fault → Fault
  | .invalid base t =>
      .badScalar ("invalid literal for int() with base " ++ Text.ofNat base ++ ": " ++ t.quoted)
  | .tooLong digits => .badScalar (integerTooLongMessage digits)

def integerIn (base : Nat) (t : Text) : Except Fault Int :=
  (Numeral.integer 4300 base t).mapError Fault.ofNumeral

def dropBars (t : Text) : Text := t.filter fun (c : CodePoint) => c ≠ '_'

def sexagesimal (places : List Int) : Int := places.foldl (fun n p => n * 60 + p) 0

def intValue (t : Text) : Except Fault Int := do
  match dropBars t with
  | [] => .error .noIndex
  | c :: r =>
      let sign : Int := if c = '-' then -1 else 1
      let body := if c = '-' || c = '+' then r else c :: r
      match body with
      | [] => .error .noIndex
      | first :: _ =>
          let n ←
            if let some digits := Text.after? "0b" body then integerIn 2 digits
            else if let some digits := Text.after? "0x" body then integerIn 16 digits
            else if body = "0" then pure 0
            else if first = '0' then integerIn 8 body
            else if body.contains (CodePoint.ofChar ':') then do
              pure (sexagesimal (← (Text.splitOn ':' body).mapM (integerIn 10)))
            else integerIn 10 body
          return sign * n

def floatOf (t : Text) : Except Fault Binary64 :=
  match Binary64.ofText? t.strip with
  | some x => .ok x
  | none => .error (.badScalar ("could not convert string to float: " ++ t.quoted))

def sexagesimalFloat (places : List Binary64) : Binary64 :=
  (places.foldl (fun (sum, base) p =>
    (Binary64.add sum (Binary64.mul p (Binary64.ofInt base)), base * 60))
    (Binary64.zero false, (1 : Int))).1

def floatValue (t : Text) : Except Fault Binary64 := do
  match Text.lower (dropBars t) with
  | [] => .error .noIndex
  | c :: r =>
      let negative := c = '-'
      let body := if c = '-' || c = '+' then r else c :: r
      let x ←
        if body = ".inf" then pure (Binary64.infinite false)
        else if body = ".nan" then pure .nan
        else if body.contains (CodePoint.ofChar ':') then do
          pure (sexagesimalFloat (← (Text.splitOn ':' body).mapM floatOf).reverse)
        else floatOf body
      return if negative then x.negate else x

/-! ### Bytes -/

def sextet? (c : CodePoint) : Option Nat :=
  if c.isAsciiUpper then some (c.toNat - 0x41)
  else if c.isAsciiLower then some (c.toNat - 0x61 + 26)
  else if c.isAsciiDigit then some (c.toNat - 0x30 + 52)
  else if c = '+' then some 62
  else if c = '/' then some 63
  else none

/-- The bytes of a text in base 64, from a place in a group of four; the bits that are left have
come before.  What is no character of base 64 is passed over, and enough pads end the text. -/
def bytesFrom : Nat → Nat → Nat → Text → Option Bytes
  | place, _, _, [] => if place = 0 then some [] else none
  | place, bits, pads, c :: r =>
      if c = '=' then
        if place < 2 then bytesFrom place bits pads r
        else if 4 ≤ place + (pads + 1) then some []
        else bytesFrom place bits (pads + 1) r
      else
        match sextet? c with
        | none => bytesFrom place bits pads r
        | some six =>
            match place with
            | 0 => bytesFrom 1 six 0 r
            | 1 => (bytesFrom 2 (six % 16) 0 r).map ((bits * 4 + six / 16).toUInt8 :: ·)
            | 2 => (bytesFrom 3 (six % 4) 0 r).map ((bits * 16 + six / 4).toUInt8 :: ·)
            | _ => (bytesFrom 0 0 0 r).map ((bits * 64 + six).toUInt8 :: ·)

def bytesValue (t : Text) : Except Fault Value :=
  if t.any fun c => 0x80 ≤ c.toNat then .error .malformed
  else match bytesFrom 0 0 0 t with
  | some bytes => .ok (.bytes bytes)
  | none => .error .malformed

/-- The value of a scalar of a kind.  The kinds of special keys have none. -/
def ScalarKind.read (k : ScalarKind) (t : Text) : Except Fault Value :=
  match k with
  | .str => .ok (.str t)
  | .null => .ok .null
  | .bool =>
      match boolNames.lookup (Text.lower t) with
      | some b => .ok (.bool b)
      | none => .error .noKey
  | .int => .int <$> intValue t
  | .float => .float <$> floatValue t
  | .timestamp => timestampValue t
  | .binary => bytesValue t
  | .merge | .value => .error .malformed

end Docsmith.Yaml
