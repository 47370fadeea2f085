import Docsmith.Yaml.Tag

/-!
# The text of scalars

The text of plain, quoted and block scalars.  Each function takes the place where a
scalar begins and gives its text and the place behind it.
-/

namespace Docsmith.Yaml

/-! ## Quoted scalars -/

def escapes : List (CodePoint × Nat) :=
  [('0', 0), ('a', 7), ('b', 8), ('t', 9), ('\t', 9), ('n', 10), ('v', 11), ('f', 12), ('r', 13),
   ('e', 27), (' ', 32), ('"', 34), ('\\', 92), ('/', 47), ('N', 0x85), ('_', 0xA0),
   ('L', 0x2028), ('P', 0x2029)]

def escapeDigits (c : CodePoint) : Option Nat :=
  if c = 'x' then some 2 else if c = 'u' then some 4 else if c = 'U' then some 8 else none

def quotedBreaks : Nat → Cursor → Text → Except Fault (Text × Cursor)
  | 0, c, acc => .ok (acc, c)
  | fuel + 1, c, acc =>
      if c.atSeparator then .error .malformed
      else
        let c := c.skipWhile fun (ch : CodePoint) => ch = ' ' || ch = '\t'
        if (c.peek 0).any isBreak then
          let (br, c) := c.lineBreak
          quotedBreaks fuel c (acc ++ br)
        else .ok (acc, c)

def foldBreaks (first more : Text) : Text :=
  if first ≠ [Text.newline] then first ++ more
  else if more.isEmpty then [CodePoint.ofChar ' '] else more

def quotedEscape (c : Cursor) : Except Fault (Text × Cursor) :=
  match c.peek 0 with
  | none => .error .malformed
  | some ch =>
      match escapes.lookup ch with
      | some n => .ok ([CodePoint.ofNat n], c.step)
      | none =>
          match escapeDigits ch with
          | some n =>
              let c := c.step
              let digits := c.rest.take n
              if digits.length = n && digits.all CodePoint.isHexDigit then
                let code := Text.foldDigits 16 (digits.filterMap CodePoint.hexValue?)
                if code < 0x110000 then .ok ([CodePoint.ofNat code], c.steps n)
                else if code < 0x80000000 then
                  .error (.badScalar "chr() arg not in range(0x110000)")
                else .error .hugeEscape
              else .error .malformed
          | none =>
              if isBreak ch then
                let (_, c) := c.lineBreak
                quotedBreaks (c.rest.length + 1) c []
              else .error .malformed

def quotedBody (double : Bool) : Nat → Cursor → Text → Except Fault (Text × Cursor)
  | 0, _, _ => .error .malformed
  | fuel + 1, c, acc => do
      match c.peek 0 with
      | none => .error .malformed
      | some ch =>
          if ch = '\'' && !double then
            if c.peek 1 = some (CodePoint.ofChar '\'') then
              quotedBody double fuel (c.steps 2) (acc ++ [ch])
            else .ok (acc, c.step)
          else if ch = '"' && double then .ok (acc, c.step)
          else if ch = '\\' && double then
            let (t, c) ← quotedEscape c.step
            quotedBody double fuel c (acc ++ t)
          else if ch = ' ' || ch = '\t' || isBreak ch then
            let blanks := c.rest.takeWhile fun (ch : CodePoint) => ch = ' ' || ch = '\t'
            let c := c.steps blanks.length
            match c.peek 0 with
            | none => .error .malformed
            | some ch =>
                if isBreak ch then
                  let (first, c) := c.lineBreak
                  let (more, c) ← quotedBreaks (c.rest.length + 1) c []
                  quotedBody double fuel c (acc ++ foldBreaks first more)
                else quotedBody double fuel c (acc ++ blanks)
          else quotedBody double fuel c.step (acc ++ [ch])

def quotedScalar (double : Bool) (c : Cursor) : Except Fault (Text × Cursor) :=
  quotedBody double (c.rest.length + 1) c.step []

/-! ## Plain scalars -/

def plainRun (flow : Bool) : Text → Nat
  | [] => 0
  | ch :: rest =>
      let next := rest.head?
      if ch = ' ' || ch = '\t' || isBreak ch then 0
      else if ch = ':' && (isGapOrEnd next || (flow && isOneOf ",[]\x7b\x7d" next)) then 0
      else if flow && isOneOf ",?[]\x7b\x7d" (some ch) then 0
      else plainRun flow rest + 1

/-- Spaces and line breaks after the first break of a plain scalar; none at a separator of
documents. -/
def plainBreaks : Nat → Cursor → Text → Option Text × Cursor
  | 0, c, acc => (some acc, c)
  | fuel + 1, c, acc =>
      match c.peek 0 with
      | none => (some acc, c)
      | some ch =>
          if ch = ' ' then plainBreaks fuel c.step acc
          else if isBreak ch then
            let (br, c) := c.lineBreak
            if c.atSeparator then (none, c) else plainBreaks fuel c (acc ++ br)
          else (some acc, c)

/-- The gap after a run of a plain scalar: what it stands for, if the scalar may go on,
and whether a line was ended. -/
def plainGap (c : Cursor) : Option Text × Bool × Cursor :=
  let spaces := c.rest.takeWhile fun (ch : CodePoint) => ch = ' '
  let c := c.steps spaces.length
  match c.peek 0 with
  | none => (if spaces.isEmpty then none else some spaces, false, c)
  | some ch =>
      if isBreak ch then
        let (first, c) := c.lineBreak
        if c.atSeparator then (none, true, c)
        else
          match plainBreaks (c.rest.length + 1) c [] with
          | (none, c) => (none, true, c)
          | (some more, c) => (some (foldBreaks first more), true, c)
      else (if spaces.isEmpty then none else some spaces, false, c)

def plainScalar (flow : Bool) (indent : Int) : Nat → Cursor → Text → Text → Bool →
    Text × Bool × Cursor
  | 0, c, acc, _, ended => (acc, ended, c)
  | fuel + 1, c, acc, gap, ended =>
      if c.peek 0 = some (CodePoint.ofChar '#') then (acc, ended, c)
      else
        let n := plainRun flow c.rest
        if n = 0 then (acc, ended, c)
        else
          let acc := acc ++ gap ++ c.rest.take n
          match plainGap (c.steps n) with
          | (none, broke, c) => (acc, broke, c)
          | (some gap, broke, c) =>
              if c.peek 0 = some (CodePoint.ofChar '#') || (!flow && c.column < indent) then
                (acc, broke, c)
              else plainScalar flow indent fuel c acc gap broke

/-! ## Block scalars -/

inductive Chomping where
  | strip
  | clip
  | keep
deriving DecidableEq, Repr

def chompingMark? (c : Option CodePoint) : Option Chomping :=
  if c = some (CodePoint.ofChar '+') then some .keep
  else if c = some (CodePoint.ofChar '-') then some .strip
  else none

def indentMark? (c : Option CodePoint) : Option Nat :=
  match c with
  | some c => if c.isAsciiDigit then some (c.toNat - 0x30) else none
  | none => none

def blockMarks (c : Cursor) : Except Fault (Chomping × Option Nat × Cursor) :=
  let (chomping, increment, c) :=
    match chompingMark? (c.peek 0) with
    | some chomping =>
        match indentMark? (c.peek 1) with
        | some n => (chomping, some n, c.steps 2)
        | none => (chomping, none, c.step)
    | none =>
        match indentMark? (c.peek 0) with
        | some n =>
            match chompingMark? (c.peek 1) with
            | some chomping => (chomping, some n, c.steps 2)
            | none => (.clip, some n, c.step)
        | none => (.clip, none, c)
  if increment = some 0 || !isSpaceOrEnd (c.peek 0) then .error .malformed
  else .ok (chomping, increment, c)

def blockLead : Nat → Cursor → Text → Nat → Text × Nat × Cursor
  | 0, c, acc, column => (acc, column, c)
  | fuel + 1, c, acc, column =>
      match c.peek 0 with
      | none => (acc, column, c)
      | some ch =>
          if ch = ' ' then
            let c := c.step
            blockLead fuel c acc (max column c.column)
          else if isBreak ch then
            let (br, c) := c.lineBreak
            blockLead fuel c (acc ++ br) column
          else (acc, column, c)

def skipIndent (indent : Nat) : Nat → Cursor → Cursor
  | 0, c => c
  | fuel + 1, c =>
      if c.column < indent && c.peek 0 = some (CodePoint.ofChar ' ') then
        skipIndent indent fuel c.step
      else c

def blockBreaks (indent : Nat) : Nat → Cursor → Text → Text × Cursor
  | 0, c, acc => (acc, c)
  | fuel + 1, c, acc =>
      let c := skipIndent indent (c.rest.length + 1) c
      if (c.peek 0).any isBreak then
        let (br, c) := c.lineBreak
        blockBreaks indent fuel c (acc ++ br)
      else (acc, c)

def isIndentedChar : Option CodePoint → Bool
  | some c => c = ' ' || c = '\t'
  | none => false

def blockLines (folded : Bool) (indent : Nat) : Nat → Cursor → Text → Text → Text → Text →
    Text × Text × Text × Cursor
  | 0, c, acc, lastBreak, breaks, _ => (acc, lastBreak, breaks, c)
  | fuel + 1, c, acc, lastBreak, breaks, joint =>
      if c.column = indent && (c.peek 0).isSome then
        let flush := !isIndentedChar (c.peek 0)
        let line := c.rest.takeWhile fun ch => !isBreak ch
        let acc := acc ++ joint ++ breaks ++ line
        let (br, c) := (c.steps line.length).lineBreak
        let (breaks, c) := blockBreaks indent (c.rest.length + 1) c []
        let joint :=
          if folded && br = [Text.newline] && flush && !isIndentedChar (c.peek 0) then
            if breaks.isEmpty then [CodePoint.ofChar ' '] else []
          else br
        blockLines folded indent fuel c acc br breaks joint
      else (acc, lastBreak, breaks, c)

def blockScalar (folded : Bool) (outer : Int) (c : Cursor) : Except Fault (Text × Cursor) := do
  let (chomping, increment, c) ← blockMarks c.step
  let c ← commentLine c
  let least := max (outer + 1) 1 |>.toNat
  let (indent, breaks, c) :=
    match increment with
    | some n =>
        let indent := least + n - 1
        let (breaks, c) := blockBreaks indent (c.rest.length + 1) c []
        (indent, breaks, c)
    | none =>
        let (breaks, column, c) := blockLead (c.rest.length + 1) c [] 0
        (max least column, breaks, c)
  let (body, lastBreak, breaks, c) := blockLines folded indent (c.rest.length + 1) c [] [] breaks []
  let tail := match chomping with
    | .strip => []
    | .clip => lastBreak
    | .keep => lastBreak ++ breaks
  return (body ++ tail, c)

end Docsmith.Yaml
