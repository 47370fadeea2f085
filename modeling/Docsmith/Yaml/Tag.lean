import Docsmith.Text.Utf8
import Docsmith.Yaml.Cursor

/-!
# Names in a YAML text

Anchors, tags and directives.  Each function takes the place where one begins and gives
it with the place behind it.
-/

namespace Docsmith.Yaml

structure TagText where
  handle : Option Text
  suffix : Text
deriving DecidableEq, Repr

inductive Directive where
  | version (major : Nat)
  | handle (name lead : Text)
  | other
deriving DecidableEq, Repr

def anchorName (c : Cursor) : Except Fault (Text × Cursor) :=
  let name := c.step.rest.takeWhile isNameChar
  let after := c.steps (name.length + 1)
  if name.isEmpty || !(isGapOrEnd (after.peek 0) || isOneOf "?:,]\x7d%@\x60" (after.peek 0)) then
    .error .malformed
  else .ok (name, after)

/-! ## Tags -/

def isUriChar (c : CodePoint) : Bool :=
  c.isAsciiDigit || c.isAsciiLetter || isOneOf "-;/?:@&=+$,_.!~*'()[]" (some c)

def uriBytes : Nat → Cursor → Except Fault (Bytes × Cursor)
  | 0, _ => .error .malformed
  | fuel + 1, c => do
      if c.peek 0 = some (CodePoint.ofChar '%') then
        let digits := (c.step.rest.take 2).filterMap CodePoint.hexValue?
        if digits.length = 2 then
          let (bytes, c) ← uriBytes fuel (c.steps 3)
          return ((Text.foldDigits 16 digits).toUInt8 :: bytes, c)
        else .error .malformed
      else return ([], c)

def uriText : Nat → Cursor → Text → Except Fault (Text × Cursor)
  | 0, c, acc => .ok (acc, c)
  | fuel + 1, c, acc => do
      let run := c.rest.takeWhile isUriChar
      let c := c.steps run.length
      if c.peek 0 = some (CodePoint.ofChar '%') then
        let (bytes, c) ← uriBytes (c.rest.length + 1) c
        match Utf8.decode bytes with
        | .ok t => uriText fuel c (acc ++ run ++ t)
        | .error _ => .error .malformed
      else return (acc ++ run, c)

def uri (c : Cursor) : Except Fault (Text × Cursor) := do
  let (t, after) ← uriText (c.rest.length + 1) c []
  if after.index = c.index then .error .malformed else return (t, after)

def tagHandle (c : Cursor) : Except Fault (Text × Cursor) :=
  if c.peek 0 ≠ some (CodePoint.ofChar '!') then .error .malformed
  else if c.peek 1 = some (CodePoint.ofChar ' ') then .ok ("!", c.step)
  else
    let name := c.step.rest.takeWhile isNameChar
    let after := c.steps (name.length + 1)
    if after.peek 0 = some (CodePoint.ofChar '!') then .ok ("!" ++ name ++ "!", after.step)
    else .error .malformed

def tagText (c : Cursor) : Except Fault (TagText × Cursor) := do
  let (tag, after) ←
    if c.peek 1 = some (CodePoint.ofChar '<') then do
      let (suffix, after) ← uri (c.steps 2)
      if after.peek 0 ≠ some (CodePoint.ofChar '>') then .error .malformed
      pure (⟨none, suffix⟩, after.step)
    else if isGapOrEnd (c.peek 1) then pure (⟨none, "!"⟩, c.step)
    else
      let word := c.step.rest.takeWhile fun ch => !isSpaceOrEnd (some ch)
      if word.contains (CodePoint.ofChar '!') then do
        let (handle, after) ← tagHandle c
        let (suffix, after) ← uri after
        pure (⟨some handle, suffix⟩, after)
      else do
        let (suffix, after) ← uri c.step
        pure (⟨some "!", suffix⟩, after)
  if isSpaceOrEnd (after.peek 0) then return (tag, after) else .error .malformed

/-! ## Directives -/

def commentLine (c : Cursor) : Except Fault Cursor :=
  let c := c.skipWhile fun (ch : CodePoint) => ch = ' '
  let c :=
    if c.peek 0 = some (CodePoint.ofChar '#') then c.skipWhile fun ch => !isBreak ch else c
  if isLineEnd (c.peek 0) then .ok c.lineBreak.2 else .error .malformed

def skipSpaces (c : Cursor) : Cursor := c.skipWhile fun (ch : CodePoint) => ch = ' '

def versionPart (c : Cursor) : Except Fault (Nat × Cursor) :=
  let digits := c.rest.takeWhile CodePoint.isAsciiDigit
  if digits.isEmpty then .error .malformed
  else .ok (Text.foldDigits 10 (digits.filterMap CodePoint.hexValue?), c.steps digits.length)

def directive (c : Cursor) : Except Fault (Directive × Cursor) := do
  let name := c.step.rest.takeWhile isNameChar
  let after := c.steps (name.length + 1)
  if name.isEmpty || !isSpaceOrEnd (after.peek 0) then .error .malformed
  let (d, after) ←
    if name = "YAML" then do
      let (major, after) ← versionPart (skipSpaces after)
      if after.peek 0 ≠ some (CodePoint.ofChar '.') then .error .malformed
      let (_, after) ← versionPart after.step
      if !isSpaceOrEnd (after.peek 0) then .error .malformed
      pure (Directive.version major, after)
    else if name = "TAG" then do
      let (handle, after) ← tagHandle (skipSpaces after)
      if after.peek 0 ≠ some (CodePoint.ofChar ' ') then .error .malformed
      let (lead, after) ← uri (skipSpaces after)
      if !isSpaceOrEnd (after.peek 0) then .error .malformed
      pure (Directive.handle handle lead, after)
    else pure (Directive.other, after.skipWhile fun ch => !isBreak ch)
  return (d, ← commentLine after)

end Docsmith.Yaml
