import Docsmith.Yaml.ScalarText

/-!
# YAML tokens

A text is cut into tokens from left to right.  Indentation opens and closes blocks.  A
token that turns out to be the key of a mapping only when its colon is met gets its key
mark, and the start of the mapping, put in front of it.
-/

namespace Docsmith.Yaml

inductive Token where
  | directive (d : Directive)
  | documentStart
  | documentEnd
  | blockSequenceStart
  | blockMappingStart
  | blockEnd
  | flowSequenceStart
  | flowSequenceEnd
  | flowMappingStart
  | flowMappingEnd
  | flowEntry
  | blockEntry
  | key
  | value
  | alias (name : Text)
  | anchor (name : Text)
  | tag (t : TagText)
  | scalar (t : Text) (plain : Bool)
deriving DecidableEq, Repr

/-- A token that is a key if a colon follows on its line.  It must be one where a block
mapping expects its next key. -/
structure KeyCandidate where
  position : Nat
  required : Bool
  index : Nat
  line : Nat
  column : Nat
deriving Repr

/-- Tokens so far, open blocks and flow collections, and what may be a key: at most one
candidate for each depth of flow collections. -/
structure Lexer where
  cursor : Cursor
  tokens : Array Token := #[]
  flow : Nat := 0
  indent : Int := -1
  outer : List Int := []
  keyAllowed : Bool := true
  candidates : List (Nat × KeyCandidate) := []

namespace Lexer

def push (l : Lexer) (t : Token) : Lexer := { l with tokens := l.tokens.push t }

def insert (l : Lexer) (position : Nat) (t : Token) : Lexer :=
  { l with tokens := (l.tokens.toList.take position ++ t :: l.tokens.toList.drop position).toArray }

def forward (l : Lexer) (n : Nat) : Lexer := { l with cursor := l.cursor.steps n }

def inBlock (l : Lexer) : Bool := l.flow = 0

/-! ## Candidates for keys -/

def dropStale (l : Lexer) : Except Fault Lexer :=
  let isStale (k : KeyCandidate) : Bool :=
    k.line ≠ l.cursor.line || l.cursor.index - k.index > 1024
  if l.candidates.any fun e => isStale e.2 && e.2.required then .error .malformed
  else .ok { l with candidates := l.candidates.filter fun e => !isStale e.2 }

def dropCandidate (l : Lexer) : Except Fault Lexer :=
  if l.candidates.any fun e => e.1 = l.flow && e.2.required then .error .malformed
  else .ok { l with candidates := l.candidates.filter fun e => e.1 ≠ l.flow }

def addCandidate (l : Lexer) : Except Fault Lexer := do
  if l.keyAllowed then
    let c := l.cursor
    let required := l.inBlock && l.indent = (c.column : Int)
    let l ← l.dropCandidate
    return { l with
      candidates := l.candidates ++ [(l.flow, ⟨l.tokens.size, required, c.index, c.line, c.column⟩)] }
  else return l

/-! ## Indentation -/

def unwind (column : Int) (l : Lexer) : Lexer :=
  if l.inBlock then
    let closed := ((l.indent :: l.outer).takeWhile (· > column)).length
    { l with
      indent := ((l.indent :: l.outer)[closed]?).getD (-1)
      outer := (l.indent :: l.outer).drop (closed + 1)
      tokens := l.tokens ++ (List.replicate closed Token.blockEnd).toArray }
  else l

/-- Opens a block at a column; none if it is not indented further than the present one. -/
def open? (column : Nat) (l : Lexer) : Option Lexer :=
  if l.indent < column then some { l with indent := column, outer := l.indent :: l.outer }
  else none

def openBlock (start : Token) (l : Lexer) : Except Fault Lexer :=
  if l.inBlock then
    if !l.keyAllowed then .error .malformed
    else .ok (((l.open? l.cursor.column).map fun l => l.push start).getD l)
  else .ok l

/-! ## Steps -/

def skipBlank : Nat → Lexer → Lexer
  | 0, l => l
  | fuel + 1, l =>
      let c := skipSpaces l.cursor
      let c :=
        if c.peek 0 = some (CodePoint.ofChar '#') then c.skipWhile fun ch => !isBreak ch else c
      if (c.peek 0).any isBreak then
        skipBlank fuel { l with cursor := c.lineBreak.2, keyAllowed := l.keyAllowed || l.inBlock }
      else { l with cursor := c }

def outside (l : Lexer) : Except Fault Lexer := do
  let l ← (l.unwind (-1)).dropCandidate
  return { l with keyAllowed := false }

def flowStart (t : Token) (l : Lexer) : Except Fault Lexer := do
  let l ← l.addCandidate
  return { (l.forward 1).push t with flow := l.flow + 1, keyAllowed := true }

def flowEnd (t : Token) (l : Lexer) : Except Fault Lexer := do
  let l ← l.dropCandidate
  if l.inBlock then .error .malformed
  return { (l.forward 1).push t with flow := l.flow - 1, keyAllowed := false }

def flowEntry (l : Lexer) : Except Fault Lexer := do
  let l ← l.dropCandidate
  return { (l.forward 1).push .flowEntry with keyAllowed := true }

def blockEntry (l : Lexer) : Except Fault Lexer := do
  let l ← (← l.openBlock .blockSequenceStart).dropCandidate
  return { (l.forward 1).push .blockEntry with keyAllowed := true }

def explicitKey (l : Lexer) : Except Fault Lexer := do
  let l ← (← l.openBlock .blockMappingStart).dropCandidate
  return { (l.forward 1).push .key with keyAllowed := l.inBlock }

def colon (l : Lexer) : Except Fault Lexer := do
  match l.candidates.lookup l.flow with
  | some k =>
      let l := { l with candidates := l.candidates.filter fun e => e.1 ≠ l.flow }
      let l := l.insert k.position .key
      let l :=
        if l.inBlock then
          ((l.open? k.column).map fun l => l.insert k.position .blockMappingStart).getD l
        else l
      return { (l.forward 1).push .value with keyAllowed := false }
  | none =>
      let l ← (← l.openBlock .blockMappingStart).dropCandidate
      return { (l.forward 1).push .value with keyAllowed := l.inBlock }

def name (scan : Cursor → Except Fault (Token × Cursor)) (l : Lexer) : Except Fault Lexer := do
  let l ← l.addCandidate
  let (t, c) ← scan l.cursor
  return { l.push t with cursor := c, keyAllowed := false }

def block (folded : Bool) (l : Lexer) : Except Fault Lexer := do
  let l ← l.dropCandidate
  let (t, c) ← blockScalar folded l.indent l.cursor
  return { l.push (.scalar t false) with cursor := c, keyAllowed := true }

def plain (l : Lexer) : Except Fault Lexer := do
  let l ← l.addCandidate
  let (t, ended, c) :=
    plainScalar (!l.inBlock) (l.indent + 1) (l.cursor.rest.length + 1) l.cursor [] [] false
  return { l.push (.scalar t true) with cursor := c, keyAllowed := ended }

/-- A plain scalar starts with a code point that is no indicator, or with a dash, and in a
block also with a question mark or colon, that no gap follows. -/
def startsPlain (l : Lexer) (ch : CodePoint) : Bool :=
  !(isGapOrEnd (some ch) || isOneOf "-?:,[]\x7b\x7d#&*!|>'\"%@\x60" (some ch))
    || (!isGapOrEnd (l.cursor.peek 1)
        && (ch = '-' || (l.inBlock && (ch = '?' || ch = ':'))))

def token (l : Lexer) (ch : CodePoint) : Except Fault Lexer := do
  let c := l.cursor
  let gapFollows := isGapOrEnd (c.peek 1)
  if ch = '%' && c.column = 0 then
    let l ← l.outside
    let (d, c) ← directive l.cursor
    return { l.push (.directive d) with cursor := c }
  else if c.column = 0 && c.atSeparator then
    let l ← l.outside
    return (l.forward 3).push (if ch = '-' then .documentStart else .documentEnd)
  else if ch = '[' then l.flowStart .flowSequenceStart
  else if ch = '\x7b' then l.flowStart .flowMappingStart
  else if ch = ']' then l.flowEnd .flowSequenceEnd
  else if ch = '\x7d' then l.flowEnd .flowMappingEnd
  else if ch = ',' then l.flowEntry
  else if ch = '-' && gapFollows then l.blockEntry
  else if ch = '?' && (!l.inBlock || gapFollows) then l.explicitKey
  else if ch = ':' && (!l.inBlock || gapFollows) then l.colon
  else if ch = '*' then l.name fun c => do
    let (n, c) ← anchorName c
    return (.alias n, c)
  else if ch = '&' then l.name fun c => do
    let (n, c) ← anchorName c
    return (.anchor n, c)
  else if ch = '!' then l.name fun c => do
    let (t, c) ← tagText c
    return (.tag t, c)
  else if ch = '|' && l.inBlock then l.block false
  else if ch = '>' && l.inBlock then l.block true
  else if ch = '\'' || ch = '"' then l.name fun c => do
    let (t, c) ← quotedScalar (ch = '"') c
    return (.scalar t false, c)
  else if l.startsPlain ch then l.plain
  else .error .malformed

def all : Nat → Lexer → Except Fault Lexer
  | 0, _ => .error .malformed
  | fuel + 1, l => do
      let l := skipBlank (l.cursor.rest.length + 1) l
      let l := (← l.dropStale).unwind l.cursor.column
      match l.cursor.peek 0 with
      | none => l.outside
      | some ch => all fuel (← l.token ch)

end Lexer

def Token.tokenize (t : Text) : Except Fault (List Token) := do
  if !t.all isAllowed then .error .malformed
  let start : Cursor := { rest := t }
  let start := if start.peek 0 = some (CodePoint.ofNat 0xFEFF) then start.step else start
  let l ← Lexer.all (t.length + 2) { cursor := start }
  return l.tokens.toList

end Docsmith.Yaml
