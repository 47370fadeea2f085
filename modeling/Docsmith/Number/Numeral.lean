import Docsmith.Text.Blank
import Docsmith.Text.Digit
import Docsmith.Text.Quoted

/-!
# Integer numerals

An integer in a base: a sign, the mark of the base, and at least one digit, with blanks
around.  Decimal digits may be of any script.
-/

namespace Docsmith.Numeral

inductive Fault where
  | invalid (base : Nat) (t : Text)
  | tooLong (digits : Nat)
deriving DecidableEq, Repr

def digit? (base : Nat) (c : CodePoint) : Option Nat :=
  (c.digitValue?.or c.hexValue?).filter (· < base)

def baseMark (base : Nat) : Text :=
  if base = 2 then "bB" else if base = 8 then "oO" else if base = 16 then "xX" else []

def dropMark (base : Nat) (t : Text) : Text :=
  match t with
  | z :: m :: r => if z = '0' && (baseMark base).contains m then r else t
  | _ => t

def integer (limit base : Nat) (t : Text) : Except Fault Int :=
  let body := t.strip
  let (negative, body) : Bool × Text := match body with
    | c :: r => if c = '-' then (true, r) else if c = '+' then (false, r) else (false, c :: r)
    | [] => (false, [])
  let body := dropMark base body
  if body.isEmpty then .error (.invalid base t)
  else
    match body.mapM (digit? base) with
    | none => .error (.invalid base t)
    | some ds =>
        if base = 10 && ds.length > limit then .error (.tooLong ds.length)
        else
          let n := Text.foldDigits base ds
          .ok (if negative then -(n : Int) else n)

end Docsmith.Numeral
