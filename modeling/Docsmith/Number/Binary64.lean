import Docsmith.Text.Digit

/-!
# Binary floating point

Numbers with a 53-bit mantissa, kept as exact mantissa and exponent.  A decimal numeral
becomes the nearest of them, and of two equally near the one with the even mantissa.
-/

namespace Docsmith

inductive Binary64 where
  | nan
  | infinite (negative : Bool)
  | finite (negative : Bool) (mantissa : Nat) (exponent : Int)
deriving DecidableEq, Repr

namespace Binary64

def twoTo (n : Nat) : Nat := Nat.pow 2 n

def tenTo (n : Nat) : Nat := Nat.pow 10 n

def roundDiv (num den : Nat) : Nat :=
  let q := num / den
  let r := num % den
  if 2 * r < den then q
  else if 2 * r > den then q + 1
  else if q % 2 = 0 then q else q + 1

def ofRatio (negative : Bool) (num den : Nat) : Binary64 :=
  let span : Int := (num.log2 : Int) - (den.log2 : Int)
  let short : Bool :=
    if 0 ≤ span then num < den * twoTo span.toNat else num * twoTo (-span).toNat < den
  let exponent : Int := max (span - (if short then 53 else 52)) (-1074)
  let mantissa :=
    if 0 ≤ exponent then roundDiv num (den * twoTo exponent.toNat)
    else roundDiv (num * twoTo (-exponent).toNat) den
  let (mantissa, exponent) :=
    if mantissa = twoTo 53 then (twoTo 52, exponent + 1) else (mantissa, exponent)
  if exponent > 971 then .infinite negative else .finite negative mantissa exponent

def zero (negative : Bool) : Binary64 := .finite negative 0 (-1074)

/-- The value nearest to `digits * 10 ^ exponent`.  Far outside the range the power is
not computed. -/
def ofDecimal (negative : Bool) (digits : Nat) (exponent : Int) : Binary64 :=
  if digits = 0 then zero negative
  else
    let magnitude : Int := (digits.repr.length : Int) + exponent
    if magnitude > 400 then .infinite negative
    else if magnitude < -400 then zero negative
    else if 0 ≤ exponent then ofRatio negative (digits * tenTo exponent.toNat) 1
    else ofRatio negative digits (tenTo (-exponent).toNat)

def ofInt (n : Int) : Binary64 := ofDecimal (n < 0) n.natAbs 0

/-! ## Reading a numeral -/

def takeDigits : Text → List Nat × Text
  | [] => ([], [])
  | c :: r =>
      match c.digitValue? with
      | some d => let (ds, rest) := takeDigits r; (d :: ds, rest)
      | none => ([], c :: r)

def takeSign : Text → Bool × Text
  | [] => (false, [])
  | c :: r => if c = '-' then (true, r) else if c = '+' then (false, r) else (false, c :: r)

/-- A numeral: sign, digits with at most one point and at least one digit, and an
optional exponent; or the names of infinity and not-a-number. -/
def ofText? (t : Text) : Option Binary64 :=
  let (negative, body) := takeSign t
  let name := body.map fun c => if c.isAsciiUpper then CodePoint.ofNat (c.toNat + 32) else c
  if name = "inf" || name = "infinity" then some (.infinite negative)
  else if name = "nan" then some .nan
  else
    let (whole, rest) := takeDigits body
    let (fraction, rest) :=
      match rest with
      | c :: r => if c = '.' then takeDigits r else ([], c :: r)
      | [] => ([], [])
    if whole.isEmpty && fraction.isEmpty then none
    else
      let digits := Text.foldDigits 10 (whole ++ fraction)
      let shift : Int := -(fraction.length : Int)
      match rest with
      | [] => some (ofDecimal negative digits shift)
      | c :: r =>
          if c = 'e' || c = 'E' then
            let (minus, r) := takeSign r
            let (power, rest) := takeDigits r
            if power.isEmpty || !rest.isEmpty then none
            else
              let power : Int := Text.foldDigits 10 power
              some (ofDecimal negative digits (shift + if minus then -power else power))
          else none

/-! ## Order -/

def scaled (negative : Bool) (mantissa : Nat) (exponent : Int) : Int :=
  let n : Int := (mantissa * twoTo (exponent + 1074).toNat : Nat)
  if negative then -n else n

/-- The order of a value against an integer; none for not-a-number. -/
def compareInt : Binary64 → Int → Option Ordering
  | .nan, _ => none
  | .infinite negative, _ => some (if negative then .lt else .gt)
  | .finite s m e, n => some (compare (scaled s m e) (n * (twoTo 1074 : Int)))

def compare? : Binary64 → Binary64 → Option Ordering
  | .nan, _ => none
  | _, .nan => none
  | .infinite a, .infinite b => some (compare b.toNat a.toNat)
  | .infinite a, .finite .. => some (if a then .lt else .gt)
  | .finite .., .infinite b => some (if b then .gt else .lt)
  | .finite s m e, .finite s' m' e' => some (compare (scaled s m e) (scaled s' m' e'))

def equalInt (x : Binary64) (n : Int) : Bool := x.compareInt n == some .eq

def equal (x y : Binary64) : Bool := x.compare? y == some .eq

end Binary64

end Docsmith
