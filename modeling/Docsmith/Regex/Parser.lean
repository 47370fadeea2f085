import Docsmith.Regex.Fault
import Docsmith.Table
import Docsmith.Text.Names

/-!
# Reading patterns

A pattern is cut into units, which are single code points and pairs that a backslash
begins.  Units are read one after the other against a stack of open groups.
-/

namespace Docsmith.Regex

def units : Text → List Text × Bool
  | [] => ([], false)
  | [c] => if c = '\\' then ([], true) else ([[c]], false)
  | c :: d :: r =>
      if c = '\\' then
        let (us, dangling) := units r
        ([c, d] :: us, dangling)
      else
        let (us, dangling) := units (d :: r)
        ([c] :: us, dangling)

structure Mode where
  ignoreCase : Bool := false
  multiline : Bool := false
  dotAll : Bool := false
  verbose : Bool := false
  ascii : Bool := false
deriving DecidableEq, Repr

def Mode.ofFlags (f : Flags) : Mode :=
  ⟨f.ignoreCase, f.multiline, f.dotAll, f.verbose, f.ascii⟩

def Mode.folding (m : Mode) : Folding :=
  if !m.ignoreCase then .exact else if m.ascii then .ascii else .unicode

structure Scan where
  source : Text
  dangling : Bool
  rest : List Text
  position : Nat := 0
  flags : Flags := {}
  names : Table Text Nat := []
  widths : List (Option Width) := []
  lookbehind : Option Nat := none
  conditions : Table Nat Nat := []

abbrev Scanner := StateT Scan (Except Fault)

namespace Scanner

def failAt {α : Type} (position : Nat) (cause : Cause) : Scanner α := fun s =>
  .error (.within cause s.source position)

def fail {α : Type} (cause : Cause) (back : Nat) : Scanner α := fun s =>
  .error (.within cause s.source (s.position - back))

def peek : Scanner (Option Text) := fun s => .ok (s.rest.head?, s)

def here : Scanner Nat := fun s => .ok (s.position, s)

def remaining : Scanner Nat := fun s => .ok (s.rest.length + 1, s)

def next : Scanner (Option Text) := fun s =>
  match s.rest with
  | [] => .ok (none, s)
  | u :: rest =>
      if rest.isEmpty && s.dangling then
        .error (.within .danglingBackslash s.source (s.source.length - 1))
      else .ok (some u, { s with rest := rest, position := s.position + u.length })

def accept (u : Text) : Scanner Bool := do
  if (← peek) = some u then
    let _ ← next
    return true
  else return false

def takeUpTo (p : CodePoint → Bool) : Nat → Scanner Text
  | 0 => return []
  | n + 1 => do
      match ← peek with
      | some [c] =>
          if p c then
            let _ ← next
            return c :: (← takeUpTo p n)
          else return []
      | _ => return []

def takeAll (p : CodePoint → Bool) : Scanner Text := do takeUpTo p (← remaining)

def takeUntil (terminator what : Text) : Scanner Text := do
  go (← remaining) []
where
  go : Nat → Text → Scanner Text
    | fuel, acc => do
        match ← next with
        | none =>
            if acc.isEmpty then fail (.missingName what) 0
            else fail (.unterminatedName terminator) acc.length
        | some u =>
            if u = terminator then
              if acc.isEmpty then fail (.missingName what) 1 else return acc
            else
              match fuel with
              | 0 => return acc
              | fuel + 1 => go fuel (acc ++ u)

end Scanner

open Scanner

/-! ## Groups -/

def groupCount : Scanner Nat := fun s => .ok (s.widths.length + 1, s)

def groupWidth? (index : Nat) : Scanner (Option Width) := fun s =>
  .ok ((s.widths[index - 1]?).join, s)

def checkLookbehind (index : Nat) : Scanner Unit := do
  match (← gets (·.lookbehind)) with
  | none => return
  | some limit =>
      if (← groupWidth? index).isNone then fail .openGroup 0
      else if limit ≤ index then fail .lookbehindGroup 0
      else return
where
  gets {α : Type} (f : Scan → α) : Scanner α := fun s => .ok (f s, s)

def openGroup (name : Option Text) : Scanner Nat := fun s =>
  let index := s.widths.length + 1
  match name with
  | none => .ok (index, { s with widths := s.widths ++ [none] })
  | some name =>
      match s.names.get? name with
      | some old =>
          .error (.within (.redefinedGroup name index old) s.source
            (s.position - (name.length + 1)))
      | none =>
          .ok (index, { s with widths := s.widths ++ [none], names := s.names ++ [(name, index)] })

def closeGroup (index : Nat) (w : Width) : Scanner Unit := fun s =>
  .ok ((), { s with widths := s.widths.set (index - 1) (some w) })

def isIdentifier (name : Text) : Bool :=
  match name with
  | [] => false
  | c :: _ => name.all CodePoint.isWord && !c.isDigit

def checkGroupName (name : Text) : Scanner Unit :=
  if isIdentifier name then return else fail (.badGroupName name) (name.length + 1)

/-! ## Escapes -/

def literalSet (mode : Mode) (n : Nat) : CharSet := ⟨false, [.range n n], mode.folding⟩

def controlEscapes : Table CodePoint Nat :=
  [('a', 7), ('b', 8), ('f', 12), ('n', 10), ('r', 13), ('t', 9), ('v', 11), ('\\', 92)]

def categoryEscapes : Table CodePoint (Category × Bool) :=
  [('d', .digit, false), ('D', .digit, true), ('s', .space, false), ('S', .space, true),
   ('w', .word, false), ('W', .word, true)]

def hexNumber (digits : Text) : Nat := Text.foldDigits 16 (digits.filterMap CodePoint.hexValue?)

def octalNumber (digits : Text) : Nat := Text.foldDigits 8 (digits.filterMap CodePoint.hexValue?)

def decimalNumber (digits : Text) : Nat := Text.foldDigits 10 (digits.filterMap CodePoint.digitValue?)

def hexEscape (escape : Text) (n : Nat) : Scanner Nat := do
  let digits ← takeUpTo CodePoint.isHexDigit n
  let full := escape ++ digits
  if digits.length = n then
    let value := hexNumber digits
    if value < 0x110000 then return value else fail (.badEscape full) full.length
  else fail (.incompleteEscape full) full.length

def namedEscape : Scanner Nat := do
  if ← accept "\x7b" then
    let name ← takeUntil "\x7d" "character name"
    match Utf8.encode name, CodePoint.ofName? name with
    | .error e, _ => throw (.unencodable e)
    | .ok _, some n => return n
    | .ok _, none => fail (.undefinedCharacterName name) (name.length + 4)
  else fail .missingBrace 0

def numericEscape? (escape : Text) (c : CodePoint) : Option (Scanner Nat) :=
  if c = 'x' then some (hexEscape escape 2)
  else if c = 'u' then some (hexEscape escape 4)
  else if c = 'U' then some (hexEscape escape 8)
  else if c = 'N' then some namedEscape
  else none

inductive Member where
  | point (n : Nat)
  | category (kind : Category) (negated : Bool)

def setEscape (escape : Text) (c : CodePoint) : Scanner Member := do
  if let some n := controlEscapes.get? c then return .point n
  else if let some (kind, negated) := categoryEscapes.get? c then return .category kind negated
  else if let some scan := numericEscape? escape c then return .point (← scan)
  else if c.isOctalDigit then
    let full := escape ++ (← takeUpTo CodePoint.isOctalDigit 2)
    let value := octalNumber (full.drop 1)
    if value > 0o377 then fail (.octalTooLarge full) full.length else return .point value
  else if c.isAsciiDigit || c.isAsciiLetter then fail (.badEscape escape) escape.length
  else return .point c.toNat

inductive PartKind where
  | anchor
  | loop
  | other
deriving DecidableEq, Repr

structure Part where
  node : Node
  kind : PartKind
  width : Width

def unitWidth : Width := ⟨1, 1⟩

def oneOf (set : CharSet) : Part := ⟨.one set, .other, unitWidth⟩

def anchorPart (a : Anchor) : Part := ⟨.anchor a, .anchor, ⟨0, 0⟩⟩

def backReference (mode : Mode) (index back : Nat) : Scanner Part := do
  match ← groupWidth? index with
  | none => fail .openGroup back
  | some w =>
      checkLookbehind index
      return ⟨.back index mode.folding, .other, w⟩

def digitEscape (mode : Mode) (escape : Text) : Scanner Part := do
  let second ← takeUpTo CodePoint.isAsciiDigit 1
  let pair := escape ++ second
  let next ← peek
  let third := match next with
    | some [d] => d.isOctalDigit
    | _ => false
  if !second.isEmpty && (pair.drop 1).all CodePoint.isOctalDigit && third then
    let full := pair ++ (← takeUpTo CodePoint.isOctalDigit 1)
    let value := octalNumber (full.drop 1)
    if value > 0o377 then fail (.octalTooLarge full) full.length
    else return oneOf (literalSet mode value)
  else
    let index := decimalNumber (pair.drop 1)
    if index < (← groupCount) then backReference mode index pair.length
    else fail (.invalidGroup index) (pair.length - 1)

def escapePart (mode : Mode) (escape : Text) (c : CodePoint) : Scanner Part := do
  if c = 'A' then return anchorPart .textStart
  else if c = 'Z' then return anchorPart .textEnd
  else if c = 'b' then return anchorPart (.boundary false mode.ascii)
  else if c = 'B' then return anchorPart (.boundary true mode.ascii)
  else if let some (kind, negated) := categoryEscapes.get? c then
    return oneOf ⟨false, [.category kind negated mode.ascii], mode.folding⟩
  else if let some n := controlEscapes.get? c then return oneOf (literalSet mode n)
  else if let some scan := numericEscape? escape c then return oneOf (literalSet mode (← scan))
  else if c = '0' then
    let digits ← takeUpTo CodePoint.isOctalDigit 2
    return oneOf (literalSet mode (octalNumber digits))
  else if c.isAsciiDigit then digitEscape mode escape
  else if c.isAsciiLetter then fail (.badEscape escape) escape.length
  else return oneOf (literalSet mode c.toNat)

/-! ## Sets -/

def Member.item (mode : Mode) : Member → SetItem
  | .point n => .range n n
  | .category kind negated => .category kind negated mode.ascii

def member (u : Text) : Scanner Member :=
  match u with
  | [_, c] => setEscape u c
  | [c] => return .point c.toNat
  | _ => return .point 0

def setItems (mode : Mode) (start : Nat) : Nat → List SetItem → Scanner (List SetItem)
  | 0, acc => return acc.reverse
  | fuel + 1, acc => do
      match ← next with
      | none => failAt start .unterminatedSet
      | some u =>
          if u = "]" && !acc.isEmpty then return acc.reverse
          else
            let first ← member u
            if ← accept "-" then
              match ← next with
              | none => failAt start .unterminatedSet
              | some v =>
                  if v = "]" then return (.range 45 45 :: first.item mode :: acc).reverse
                  else
                    let last ← member v
                    match first, last with
                    | .point low, .point high =>
                        if high < low then fail (.badRange u v) (u.length + 1 + v.length)
                        else setItems mode start fuel (.range low high :: acc)
                    | _, _ => fail (.badRange u v) (u.length + 1 + v.length)
            else setItems mode start fuel (first.item mode :: acc)

def setPart (mode : Mode) : Scanner Part := do
  let start := (← here) - 1
  let negated ← accept "^"
  let items ← setItems mode start (← remaining) []
  return oneOf ⟨negated, items, mode.folding⟩

/-! ## Counts -/

def maxCount : Nat := 4294967295

/-- The bounds of a counted loop after its opening brace; none if it is no count. -/
def bounds? : Scanner (Option (Nat × Option Nat)) := do
  let start ← here
  if (← peek) = some "\x7d" then return none
  let saved ← fun s => .ok (s, s)
  let low ← takeAll CodePoint.isAsciiDigit
  let high ← if ← accept "," then takeAll CodePoint.isAsciiDigit else pure low
  if ← accept "\x7d" then
    let least := if low.isEmpty then 0 else decimalNumber low
    let most := if high.isEmpty then none else some (decimalNumber high)
    if least ≥ maxCount then throw .hugeCount
    match most with
    | none => return some (least, none)
    | some most =>
        if most ≥ maxCount then throw .hugeCount
        else if most < least then failAt start .minAboveMax
        else return some (least, some most)
  else fun s => .ok (none, { s with rest := saved.rest, position := saved.position })

def greedMark : Scanner Greed := do
  if ← accept "?" then return .lazy
  if ← accept "+" then return .possessive
  return .greedy

def repeatLast (parts : List Part) (at_ least : Nat) (most : Option Nat) : Scanner (List Part) := do
  match parts with
  | [] => failAt at_ .nothingToRepeat
  | p :: ps =>
      match p.kind with
      | .anchor => failAt at_ .nothingToRepeat
      | .loop => failAt at_ .multipleRepeat
      | .other =>
          let greed ← greedMark
          return ⟨.loop greed least most p.node, .loop, p.width.times least most⟩ :: ps

/-! ## Inline flags -/

def flagLetters : Text := "iLmsxatu"

def flagLetter? (u : Text) : Option CodePoint :=
  match u with
  | [c] => if flagLetters.contains c then some c else none
  | _ => none

/-- A letter: a word code point that is neither a digit nor a low line. -/
def isAlphabetic (u : Text) : Bool :=
  match u with
  | [c] => c.isWord && !c.isDigit && c ≠ '_'
  | _ => false

def isModeLetter (c : CodePoint) : Bool := c = 'a' || c = 'u' || c = 'L'

def flagsOn : Nat → CodePoint → Text → Scanner (Text × Text)
  | 0, _, acc => return (acc, ")")
  | fuel + 1, c, acc => do
      if c = 'L' then fail .localeFlag 0
      let acc := acc ++ [c]
      if isModeLetter c && acc.any (fun d => isModeLetter d && d ≠ c) then fail .clashingFlags 0
      match ← next with
      | none => fail .missingFlagEnd 0
      | some u =>
          if u = ")" || u = "-" || u = ":" then return (acc, u)
          else match flagLetter? u with
          | some d => flagsOn fuel d acc
          | none => fail (if isAlphabetic u then .unknownFlag else .missingFlagEnd) u.length

def flagsOff : Nat → CodePoint → Text → Scanner Text
  | 0, _, acc => return acc
  | fuel + 1, c, acc => do
      if isModeLetter c then fail .typeFlagOff 0
      let acc := acc ++ [c]
      match ← next with
      | none => fail .missingColon 0
      | some u =>
          if u = ":" then return acc
          else match flagLetter? u with
          | some d => flagsOff fuel d acc
          | none => fail (if isAlphabetic u then .unknownFlag else .missingColon) u.length

def setFlag (f : Flags) (c : CodePoint) : Flags :=
  if c = 'i' then { f with ignoreCase := true }
  else if c = 'm' then { f with multiline := true }
  else if c = 's' then { f with dotAll := true }
  else if c = 'x' then { f with verbose := true }
  else if c = 'a' then { f with ascii := true }
  else if c = 't' then { f with template := true }
  else if c = 'u' then { f with unicode := true }
  else f

def Mode.change (on off : Text) (m : Mode) : Mode :=
  let has (t : Text) (c : Char) : Bool := t.contains (CodePoint.ofChar c)
  let set (c : Char) (old : Bool) : Bool := (old || has on c) && !has off c
  ⟨set 'i' m.ignoreCase, set 'm' m.multiline, set 's' m.dotAll, set 'x' m.verbose,
   if has on 'a' then true else if has on 'u' then false else m.ascii⟩

inductive InlineFlags where
  | whole (on : Text)
  | scoped (on off : Text)

def inlineFlags (first : Text) : Scanner InlineFlags := do
  let fuel ← remaining
  let (on, last) ← match flagLetter? first with
    | some c => flagsOn fuel c []
    | none => pure ([], Text.ofString "-")
  if last = ")" then return .whole on
  if on.contains (CodePoint.ofChar 't') then fail .globalFlagOn 1
  if last = "-" then
    match ← next with
    | none => fail .missingFlag 0
    | some u =>
        match flagLetter? u with
        | none => fail (if isAlphabetic u then .unknownFlag else .missingFlag) u.length
        | some c =>
            let off ← flagsOff fuel c []
            if off.contains (CodePoint.ofChar 't') then fail .globalFlagOff 1
            if on.any off.contains then fail .flagOnAndOff 1
            return .scoped on off
  else return .scoped on []

/-! ## Branches and groups -/

inductive GroupKind where
  | whole
  | capture (index : Nat)
  | plain
  | atomic
  | ahead (negated : Bool)
  | behind (negated : Bool) (outer : Option Nat)
  | cond (index : Nat)

/-- An open group: where it began, the mode outside of it, its finished branches and the
parts of the branch at hand, both in reverse. -/
structure Frame where
  kind : GroupKind
  start : Nat
  outer : Mode
  branches : List Part
  parts : List Part

def emptyPart : Part := ⟨.empty, .other, ⟨0, 0⟩⟩

def sequence : List Part → Part
  | [] => emptyPart
  | p :: ps => ps.foldl (fun tail q => ⟨.seq q.node tail.node, .other, q.width.add tail.width⟩) p

def alternatives (p : Part) (earlier : List Part) : Part :=
  earlier.foldl (fun tail q => ⟨.alt q.node tail.node, .other, q.width.either tail.width⟩) p

def Frame.body (f : Frame) : Part := alternatives (sequence f.parts) f.branches

def Frame.close (f : Frame) : Scanner Part := do
  let body := f.body
  match f.kind with
  | .whole | .plain => return ⟨body.node, .other, body.width⟩
  | .capture index =>
      closeGroup index body.width
      return ⟨.group index body.node, .other, body.width⟩
  | .atomic => return ⟨.atomic body.node, .other, body.width⟩
  | .ahead negated => return ⟨.ahead negated body.node, .other, ⟨0, 0⟩⟩
  | .behind negated _ => return ⟨.behind negated body.width body.node, .other, ⟨0, 0⟩⟩
  | .cond index =>
      let last := sequence f.parts
      match f.branches with
      | [] => return ⟨.cond index last.node .empty, .other, ⟨0, last.width.high⟩⟩
      | yes :: _ => return ⟨.cond index yes.node last.node, .other, yes.width.either last.width⟩

def leaveLookbehind (kind : GroupKind) : Scanner Unit :=
  match kind with
  | .behind _ none => fun s => .ok ((), { s with lookbehind := none })
  | _ => return

def conditionNumber? (name : Text) : Option Nat :=
  let t := name.strip
  let t := if t.head? = some (CodePoint.ofChar '+') then t.drop 1 else t
  let pieces := Text.splitOn '_' t
  if pieces.all fun p => !p.isEmpty && p.all CodePoint.isDigit then
    some (decimalNumber (pieces.flatten))
  else none

def condition : Scanner Nat := do
  let name ← takeUntil ")" "group name"
  let back := name.length + 1
  if isIdentifier name then
    match ← (fun s => .ok (s.names.get? name, s) : Scanner (Option Nat)) with
    | none => fail (.unknownGroupName name) back
    | some index =>
        checkLookbehind index
        return index
  else
    match conditionNumber? name with
    | none => fail (.badGroupName name) back
    | some index =>
        if index = 0 then fail .badGroupNumber back
        if index ≥ 1073741823 then fail (.invalidGroup index) back
        fun s => .ok ((), if s.conditions.has index then s
          else { s with conditions := s.conditions ++ [(index, s.position - back)] })
        checkLookbehind index
        return index

inductive Opening where
  | group (kind : GroupKind) (mode : Mode)
  | part (p : Part)
  | flags (on : Text)
  | nothing

def comment (start : Nat) : Nat → Scanner Unit
  | 0 => return
  | fuel + 1 => do
      match ← peek with
      | none => failAt start .unterminatedComment
      | some _ => if (← next) = some ")" then return else comment start fuel

def namedOpening (mode : Mode) : Scanner Opening := do
  if ← accept "<" then
    let name ← takeUntil ">" "group name"
    checkGroupName name
    return .group (.capture (← openGroup (some name))) mode
  else if ← accept "=" then
    let name ← takeUntil ")" "group name"
    checkGroupName name
    match ← (fun s => .ok (s.names.get? name, s) : Scanner (Option Nat)) with
    | none => fail (.unknownGroupName name) (name.length + 1)
    | some index => return .part (← backReference mode index (name.length + 1))
  else
    match ← next with
    | none => fail .unexpectedEnd 0
    | some u => fail (.unknownExtension ("P" ++ u)) (u.length + 2)

def lookbehindOpening (mode : Mode) : Scanner Opening := do
  match ← next with
  | none => fail .unexpectedEnd 0
  | some u =>
      if u = "=" || u = "!" then
        fun s =>
          .ok (.group (.behind (u = "!") s.lookbehind) mode,
            { s with lookbehind := s.lookbehind <|> some (s.widths.length + 1) })
      else fail (.unknownExtension ("<" ++ u)) (u.length + 2)

def opening (mode : Mode) (start : Nat) : Scanner Opening := do
  if !(← accept "?") then return .group (.capture (← openGroup none)) mode
  match ← next with
  | none => fail .unexpectedEnd 0
  | some u =>
      if u = "P" then namedOpening mode
      else if u = ":" then return .group .plain mode
      else if u = "#" then
        comment start (← remaining)
        return .nothing
      else if u = "=" then return .group (.ahead false) mode
      else if u = "!" then return .group (.ahead true) mode
      else if u = "<" then lookbehindOpening mode
      else if u = "(" then return .group (.cond (← condition)) mode
      else if u = ">" then return .group .atomic mode
      else if (flagLetter? u).isSome || u = "-" then
        match ← inlineFlags u with
        | .whole on => return .flags on
        | .scoped on off => return .group .plain (mode.change on off)
      else fail (.unknownExtension u) (u.length + 1)

structure Progress where
  mode : Mode
  top : Frame
  outer : List Frame

def Progress.add (g : Progress) (p : Part) : Progress :=
  { g with top := { g.top with parts := p :: g.top.parts } }

def isVerboseBlank (u : Text) : Bool :=
  u = " " || u = "\t" || u = "\n" || u = "\r" || u = "\x0b" || u = "\x0c"

def skipLine : Nat → Scanner Unit
  | 0 => return
  | fuel + 1 => do
      match ← next with
      | none => return
      | some u => if u = "\n" then return else skipLine fuel

def bar (g : Progress) : Scanner Progress := do
  let f := g.top
  match f.kind with
  | .cond _ => if !f.branches.isEmpty then fail .tooManyBranches 0
  | _ => pure ()
  let _ ← next
  return { g with top := { f with branches := sequence f.parts :: f.branches, parts := [] } }

def openParenthesis (g : Progress) (start : Nat) : Scanner Progress := do
  match ← opening g.mode start with
  | .nothing => return g
  | .part p => return g.add p
  | .flags on =>
      if g.outer.isEmpty && g.top.branches.isEmpty && g.top.parts.isEmpty then
        fun s =>
          let flags := on.foldl setFlag s.flags
          .ok ({ g with mode := Mode.ofFlags flags }, { s with flags := flags })
      else failAt start .lateFlags
  | .group kind mode =>
      return ⟨mode, ⟨kind, start, g.mode, [], []⟩, g.top :: g.outer⟩

def ordinary (g : Progress) (u : Text) (start : Nat) : Scanner Progress := do
  match u with
  | [_, c] => return g.add (← escapePart g.mode u c)
  | _ =>
      if u = "[" then return g.add (← setPart g.mode)
      else if u = "." then
        return g.add (oneOf ⟨true, if g.mode.dotAll then [] else [.range 10 10], .exact⟩)
      else if u = "^" then return g.add (anchorPart (.beginning g.mode.multiline))
      else if u = "$" then return g.add (anchorPart (.ending g.mode.multiline))
      else if u = "(" then openParenthesis g start
      else
        let counted ←
          if u = "?" then pure (some (0, some 1))
          else if u = "*" then pure (some (0, none))
          else if u = "+" then pure (some (1, none))
          else if u = "\x7b" then bounds?
          else pure none
        match counted with
        | some (least, most) =>
            let parts ← repeatLast g.top.parts start least most
            return { g with top := { g.top with parts := parts } }
        | none => return g.add (oneOf (literalSet g.mode ((u.head?.map (·.toNat)).getD 0)))

/-- Reads to the end of the pattern, or to a closing parenthesis that closes nothing. -/
def scan : Nat → Progress → Scanner Progress
  | 0, g => return g
  | fuel + 1, g => do
      let start ← here
      match ← peek with
      | none => return g
      | some u =>
          if u = "|" then scan fuel (← bar g)
          else if u = ")" then
            match g.outer with
            | [] => return g
            | f :: outer =>
                leaveLookbehind g.top.kind
                let _ ← next
                let p ← g.top.close
                scan fuel ((⟨g.top.outer, f, outer⟩ : Progress).add p)
          else
            let _ ← next
            if g.mode.verbose && isVerboseBlank u then scan fuel g
            else if g.mode.verbose && u = "#" then
              skipLine (← remaining)
              scan fuel g
            else scan fuel (← ordinary g u start)

/-- The first fault of an expression that is found only when all of it is known. -/
def Node.fault? (template : Bool) : Node → Option Fault
  | .seq a b | .alt a b => (a.fault? template).or (b.fault? template)
  | .group _ a | .atomic a | .ahead _ a => a.fault? template
  | .loop greed _ _ a => if template then some (.templateLoop greed) else a.fault? template
  | .behind _ w a =>
      if w.low ≥ 0x100000000 then some .distantLookbehind
      else if w.low ≠ w.high then some .variableLookbehind
      else a.fault? template
  | .cond _ yes no => (yes.fault? template).or (no.fault? template)
  | _ => none

def wholeFrame : Frame := ⟨.whole, 0, {}, [], []⟩

def pattern : Scanner Node := do
  let g ← scan (← remaining) ⟨{}, wholeFrame, []⟩
  let flags ← (fun s => .ok (s.flags, s) : Scanner Flags)
  if g.outer.isEmpty && flags.ascii && flags.unicode then throw .clashingModes
  if !g.outer.isEmpty then failAt g.top.start .unterminatedGroup
  if (← peek).isSome then fail .unbalanced 0
  let (conditions, count) ← fun s => .ok ((s.conditions, s.widths.length), s)
  match conditions.find? fun e => count < e.1 with
  | some (index, position) => failAt position (.invalidGroup index)
  | none =>
      let node := g.top.body.node
      match node.fault? flags.template with
      | some fault => throw fault
      | none => return node

def compile (source : Text) : Except Fault Regex :=
  let (us, dangling) := units source
  if us.isEmpty && dangling then .error (.within .danglingBackslash source (source.length - 1))
  else do
    let (node, s) ← pattern { source := source, dangling := dangling, rest := us }
    return ⟨source, { s.flags with unicode := !s.flags.ascii }, node⟩

end Docsmith.Regex
