import Docsmith.Text.Basic

/-!
# Places in a YAML text

The rest of the text with its line and column, and the classes of code points that the
format tells apart.  The end of the text counts as a line end.
-/

namespace Docsmith.Yaml

/-- Why a text has no value: it is not well formed, a scalar does not fit the kind that it
is said to be of, or a collection holds itself. -/
inductive Fault where
  | malformed
  | badScalar (reason : Text)
  | hugeEscape
  | noKey
  | noIndex
  | noMatch
  | notText
  | endless
deriving DecidableEq, Repr

def isAllowed (c : CodePoint) : Bool :=
  let n := c.toNat
  n = 0x09 || n = 0x0A || n = 0x0D || (0x20 ≤ n && n ≤ 0x7E) || n = 0x85
    || (0xA0 ≤ n && n ≤ 0xD7FF) || (0xE000 ≤ n && n ≤ 0xFFFD) || 0x10000 ≤ n

def isBreak (c : CodePoint) : Bool :=
  c = '\r' || c = '\n' || c.toNat = 0x85 || c.toNat = 0x2028 || c.toNat = 0x2029

def isLineEnd : Option CodePoint → Bool
  | none => true
  | some c => isBreak c

def isGapOrEnd : Option CodePoint → Bool
  | none => true
  | some c => c = ' ' || c = '\t' || isBreak c

def isSpaceOrEnd : Option CodePoint → Bool
  | none => true
  | some c => c = ' ' || isBreak c

def isOneOf (set : Text) : Option CodePoint → Bool
  | none => false
  | some c => set.contains c

def isNameChar (c : CodePoint) : Bool :=
  c.isAsciiDigit || c.isAsciiLetter || c = '-' || c = '_'

structure Cursor where
  rest : Text
  index : Nat := 0
  line : Nat := 0
  column : Nat := 0
deriving Repr

namespace Cursor

def peek (c : Cursor) (n : Nat) : Option CodePoint := c.rest[n]?

def step (c : Cursor) : Cursor :=
  match c.rest with
  | [] => c
  | ch :: rest =>
      let joined := ch = '\r' && rest.head? = some Text.newline
      if isBreak ch && !joined then ⟨rest, c.index + 1, c.line + 1, 0⟩
      else if ch.toNat = 0xFEFF then ⟨rest, c.index + 1, c.line, c.column⟩
      else ⟨rest, c.index + 1, c.line, c.column + 1⟩

def steps : Nat → Cursor → Cursor
  | 0, c => c
  | n + 1, c => steps n c.step

def skipWhile (p : CodePoint → Bool) (c : Cursor) : Cursor :=
  steps (c.rest.takeWhile p).length c

def lineBreak (c : Cursor) : Text × Cursor :=
  match c.rest with
  | [] => ([], c)
  | ch :: rest =>
      if ch = '\r' && rest.head? = some Text.newline then ([Text.newline], steps 2 c)
      else if ch = '\r' || ch = '\n' || ch.toNat = 0x85 then ([Text.newline], c.step)
      else if isBreak ch then ([ch], c.step)
      else ([], c)

def atSeparator (c : Cursor) : Bool :=
  (c.rest.startsWith "---" || c.rest.startsWith "...") && isGapOrEnd (c.peek 3)

end Cursor

end Docsmith.Yaml
