import Docsmith.Number.Binary64

/-!
# The shortest decimal

A finite binary number is written with the fewest digits that read back as it, and of
those with the digits nearest to it.
-/

namespace Docsmith.Binary64

/-- A positive number with the interval of the numbers that round to it, all over one
denominator; the ends belong to it if `closed`. -/
structure Rounding where
  low : Nat
  value : Nat
  high : Nat
  den : Nat
  closed : Bool
deriving Repr

def rounding (mantissa : Nat) (exponent : Int) : Rounding :=
  let lower := if mantissa = twoTo 52 && exponent > -1074 then 1 else 2
  let up := twoTo exponent.toNat
  ⟨(4 * mantissa - lower) * up, 4 * mantissa * up, (4 * mantissa + 2) * up,
    4 * twoTo (-exponent).toNat, mantissa % 2 = 0⟩

def Rounding.holds (r : Rounding) (num den : Nat) : Bool :=
  let low := r.low * den
  let high := r.high * den
  let x := num * r.den
  if r.closed then low ≤ x && x ≤ high else low < x && x < high

/-- The multiple of `10 ^ place` nearest to the value among its two neighbours on that
grid that read back; a tie goes to the even one. -/
def Rounding.onGrid? (r : Rounding) (place : Int) : Option Nat :=
  let num := r.value * tenTo (-place).toNat
  let den := r.den * tenTo place.toNat
  let below := num / den
  let rest := num % den
  let reads (n : Nat) : Bool := r.holds (n * tenTo place.toNat) (tenTo (-place).toNat)
  match reads below, reads (below + 1) with
  | true, false => some below
  | false, true => some (below + 1)
  | false, false => none
  | true, true =>
      if 2 * rest < den then some below
      else if 2 * rest > den then some (below + 1)
      else if below % 2 = 0 then some below else some (below + 1)

def Rounding.magnitude (r : Rounding) : Int :=
  let whole := r.value / r.den
  if 0 < whole then whole.repr.length
  else 1 - (((r.den + r.value - 1) / r.value - 1).repr.length : Int)

/-- The first grid from coarse to fine that has a number reading back; seventeen digits
always do. -/
def Rounding.search (r : Rounding) (magnitude : Int) : Nat → Nat → Nat × Int
  | 0, _ => (r.value / r.den, 0)
  | fuel + 1, count =>
      let place := magnitude - count
      match r.onGrid? place with
      | some n => (n, place)
      | none => r.search magnitude fuel (count + 1)

def dropZeros : Nat → Nat → Int → Nat × Int
  | 0, n, place => (n, place)
  | fuel + 1, n, place =>
      if n ≠ 0 && n % 10 = 0 then dropZeros fuel (n / 10) (place + 1) else (n, place)

def shortest (mantissa : Nat) (exponent : Int) : Nat × Int :=
  let r := rounding mantissa exponent
  let (n, place) := r.search r.magnitude 18 1
  dropZeros 20 n place

/-- How numbers are written: the number of digits before the point below which and up to
which the point is written in place, and the names of the values that are not finite. -/
structure Style where
  positionalAbove : Int
  positionalUpTo : Int
  infinity : Text
  notANumber : Text

def plainStyle : Style := ⟨-4, 16, "inf", "nan"⟩

def dataStyle : Style := ⟨-4, 16, "Infinity", "NaN"⟩

def digitsText (n : Nat) (place : Int) (style : Style) : Text :=
  let digits := Text.ofNat n
  let count : Int := digits.length
  let point := count + place
  if style.positionalAbove < point && point ≤ style.positionalUpTo then
    if point ≤ 0 then "0." ++ Text.repeated (-point).toNat '0' ++ digits
    else if point < count then
      digits.take point.toNat ++ "." ++ digits.drop point.toNat
    else digits ++ Text.repeated (point - count).toNat '0' ++ ".0"
  else
    let power := point - 1
    let fraction : Text := if digits.length ≤ 1 then [] else '.' :: digits.drop 1
    let sign : Text := if power < 0 then "-" else "+"
    digits.take 1 ++ fraction ++ "e" ++ sign ++ Text.padLeft 2 '0' (Text.ofNat power.natAbs)

def text (style : Style) : Binary64 → Text
  | .nan => style.notANumber
  | .infinite negative => (if negative then "-" else "" : Text) ++ style.infinity
  | .finite negative mantissa exponent =>
      let sign : Text := if negative then "-" else ""
      if mantissa = 0 then sign ++ "0.0"
      else
        let (n, place) := shortest mantissa exponent
        sign ++ digitsText n place style

end Docsmith.Binary64
