import Docsmith.Number.Binary64

/-!
# Sums and products

Results are computed exactly and then rounded to the nearest value.
-/

namespace Docsmith.Binary64

def negate : Binary64 → Binary64
  | .nan => .nan
  | .infinite s => .infinite !s
  | .finite s m e => .finite (!s) m e

def ofScaled (negative : Bool) (n : Nat) (exponent : Int) : Binary64 :=
  if n = 0 then zero negative
  else if 0 ≤ exponent then ofRatio negative (n * twoTo exponent.toNat) 1
  else ofRatio negative n (twoTo (-exponent).toNat)

def add : Binary64 → Binary64 → Binary64
  | .nan, _ | _, .nan => .nan
  | .infinite a, .infinite b => if a = b then .infinite a else .nan
  | .infinite a, .finite .. => .infinite a
  | .finite .., .infinite b => .infinite b
  | .finite s m e, .finite s' m' e' =>
      let sum := scaled s m e + scaled s' m' e'
      if sum = 0 then zero (s && s') else ofScaled (sum < 0) sum.natAbs (-1074)

def mul : Binary64 → Binary64 → Binary64
  | .nan, _ | _, .nan => .nan
  | .infinite a, .infinite b => .infinite (a ^^ b)
  | .infinite a, .finite s m _ | .finite s m _, .infinite a =>
      if m = 0 then .nan else .infinite (a ^^ s)
  | .finite s m e, .finite s' m' e' => ofScaled (s ^^ s') (m * m') (e + e')

end Docsmith.Binary64
