import Docsmith.Text.Basic

/-!
# Strict UTF-8

Decoding refuses overlong forms, surrogates and numbers past the last code point, and
says which bytes are at fault.  Encoding refuses surrogates.
-/

namespace Docsmith

abbrev Bytes := List UInt8

namespace Utf8

inductive DecodeFault where
  | invalidStart
  | invalidContinuation
  | unexpectedEnd
deriving DecidableEq, Repr

def DecodeFault.reason : DecodeFault → Text
  | .invalidStart => "invalid start byte"
  | .invalidContinuation => "invalid continuation byte"
  | .unexpectedEnd => "unexpected end of data"

structure DecodeError where
  fault : DecodeFault
  byte : UInt8
  position : Nat
  width : Nat
deriving DecidableEq, Repr

def DecodeError.message (e : DecodeError) : Text :=
  if e.width = 1 then
    "'utf-8' codec can't decode byte 0x" ++ Text.padLeft 2 '0' (Text.hex e.byte.toNat)
      ++ " in position " ++ Text.ofNat e.position ++ ": " ++ e.fault.reason
  else
    "'utf-8' codec can't decode bytes in position " ++ Text.ofNat e.position ++ "-"
      ++ Text.ofNat (e.position + e.width - 1) ++ ": " ++ e.fault.reason

def lead? (b : UInt8) : Option (Nat × Nat × Nat) :=
  let n := b.toNat
  if n < 0xC2 then none
  else if n < 0xE0 then some (1, 0x80, 0xBF)
  else if n = 0xE0 then some (2, 0xA0, 0xBF)
  else if n = 0xED then some (2, 0x80, 0x9F)
  else if n < 0xF0 then some (2, 0x80, 0xBF)
  else if n = 0xF0 then some (3, 0x90, 0xBF)
  else if n < 0xF4 then some (3, 0x80, 0xBF)
  else if n = 0xF4 then some (3, 0x80, 0x8F)
  else none

/-- A sequence that has begun: the bits so far, the bytes it still needs, the range of
the next byte, its first byte and how many bytes it has. -/
structure Pending where
  bits : Nat
  missing : Nat
  low : Nat
  high : Nat
  first : UInt8
  taken : Nat
deriving Repr

def decodeFrom (position : Nat) : Option Pending → Bytes → Except DecodeError Text
  | none, [] => .ok []
  | some p, [] => .error ⟨.unexpectedEnd, p.first, position - p.taken, p.taken⟩
  | none, b :: rest =>
      if b.toNat < 0x80 then do
        let tail ← decodeFrom (position + 1) none rest
        return CodePoint.ofNat b.toNat :: tail
      else match lead? b with
      | none => .error ⟨.invalidStart, b, position, 1⟩
      | some (missing, low, high) =>
          decodeFrom (position + 1)
            (some ⟨b.toNat % Nat.pow 2 (6 - missing), missing, low, high, b, 1⟩) rest
  | some p, b :: rest =>
      if p.low ≤ b.toNat && b.toNat ≤ p.high then
        let bits := p.bits * 64 + b.toNat % 64
        if p.missing ≤ 1 then do
          let tail ← decodeFrom (position + 1) none rest
          return CodePoint.ofNat bits :: tail
        else
          decodeFrom (position + 1)
            (some ⟨bits, p.missing - 1, 0x80, 0xBF, p.first, p.taken + 1⟩) rest
      else .error ⟨.invalidContinuation, p.first, position - p.taken, p.taken⟩

def decode (bytes : Bytes) : Except DecodeError Text := decodeFrom 0 none bytes

structure EncodeError where
  first : CodePoint
  position : Nat
  width : Nat
deriving DecidableEq, Repr

def EncodeError.message (e : EncodeError) : Text :=
  if e.width = 1 then
    "'utf-8' codec can't encode character '\\u" ++ Text.padLeft 4 '0' (Text.hex e.first.toNat)
      ++ "' in position " ++ Text.ofNat e.position ++ ": surrogates not allowed"
  else
    "'utf-8' codec can't encode characters in position " ++ Text.ofNat e.position ++ "-"
      ++ Text.ofNat (e.position + e.width - 1) ++ ": surrogates not allowed"

def encodePoint (c : CodePoint) : Bytes :=
  let n := c.toNat
  if n < 0x80 then [n.toUInt8]
  else if n < 0x800 then [(0xC0 + n / 64).toUInt8, (0x80 + n % 64).toUInt8]
  else if n < 0x10000 then
    [(0xE0 + n / 4096).toUInt8, (0x80 + n / 64 % 64).toUInt8, (0x80 + n % 64).toUInt8]
  else
    [(0xF0 + n / 262144).toUInt8, (0x80 + n / 4096 % 64).toUInt8,
     (0x80 + n / 64 % 64).toUInt8, (0x80 + n % 64).toUInt8]

def encode (t : Text) : Except EncodeError Bytes :=
  match t.dropWhile (!·.isSurrogate) with
  | [] => .ok (t.flatMap encodePoint)
  | c :: rest =>
      .error ⟨c, (t.takeWhile (!·.isSurrogate)).length,
        (rest.takeWhile (·.isSurrogate)).length + 1⟩

def standsForByte (c : CodePoint) : Bool := 0xDC80 ≤ c.toNat && c.toNat ≤ 0xDCFF

/-- Why a text is not the name of a file: the first surrogate that stands for no byte, with
those after it. -/
def nameError? (t : Text) : Option EncodeError :=
  let isGood (c : CodePoint) : Bool := !c.isSurrogate || standsForByte c
  match t.dropWhile isGood with
  | [] => none
  | c :: rest =>
      some ⟨c, (t.takeWhile isGood).length, (rest.takeWhile (·.isSurrogate)).length + 1⟩

end Utf8

end Docsmith
