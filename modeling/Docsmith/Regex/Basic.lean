import Docsmith.Text.Blank
import Docsmith.Text.Case
import Docsmith.Text.Digit
import Docsmith.Text.Quoted
import Docsmith.Text.Word

/-!
# Regular expressions

The expressions that a pattern denotes, with every flag already resolved: a set of code
points knows how it folds case, and an anchor whether it works by lines.
-/

namespace Docsmith

namespace Regex

structure Flags where
  template : Bool := false
  ignoreCase : Bool := false
  multiline : Bool := false
  dotAll : Bool := false
  unicode : Bool := false
  verbose : Bool := false
  ascii : Bool := false
deriving DecidableEq, Repr

inductive Folding where
  | exact
  | ascii
  | unicode
deriving DecidableEq, Repr

inductive Category where
  | digit
  | space
  | word
deriving DecidableEq, Repr

inductive SetItem where
  | range (low high : Nat)
  | category (kind : Category) (negated ascii : Bool)
deriving DecidableEq, Repr

structure CharSet where
  negated : Bool
  items : List SetItem
  folding : Folding
deriving DecidableEq, Repr

inductive Anchor where
  | beginning (multiline : Bool)
  | ending (multiline : Bool)
  | textStart
  | textEnd
  | boundary (negated ascii : Bool)
deriving DecidableEq, Repr

inductive Greed where
  | greedy
  | lazy
  | possessive
deriving DecidableEq, Repr

structure Width where
  low : Nat
  high : Nat
deriving DecidableEq, Repr

inductive Node where
  | empty
  | one (set : CharSet)
  | anchor (a : Anchor)
  | seq (a b : Node)
  | alt (a b : Node)
  | group (index : Nat) (a : Node)
  | loop (greed : Greed) (min : Nat) (max : Option Nat) (a : Node)
  | atomic (a : Node)
  | ahead (negated : Bool) (a : Node)
  | behind (negated : Bool) (width : Width) (a : Node)
  | back (index : Nat) (folding : Folding)
  | cond (index : Nat) (yes no : Node)
deriving DecidableEq, Repr

/-! ## Sets of code points -/

def Category.holds (ascii : Bool) (c : CodePoint) : Category → Bool
  | .digit => if ascii then c.isAsciiDigit else c.isDigit
  | .space => if ascii then c.isBlank && c.toNat < 0x1C || c = ' ' else c.isBlank
  | .word => if ascii then c.isAsciiDigit || c.isAsciiLetter || c = '_' else c.isWord

def upperForms (lower : Nat) : List Nat :=
  (lowerRunsA ++ lowerRunsB).filterMap fun r =>
    if r.lower ≤ lower && lower - r.lower ≤ r.last - r.first && (lower - r.lower) % r.stride == 0
    then some (lower - r.lower + r.first) else none

def Folding.variants (c : CodePoint) : Folding → List Nat
  | .exact => [c.toNat]
  | .ascii =>
      if c.isAsciiUpper then [c.toNat, c.toNat + 32]
      else if c.isAsciiLower then [c.toNat, c.toNat - 32]
      else [c.toNat]
  | .unicode => c.caseKin.flatMap fun k => k :: upperForms k

def SetItem.holds (folding : Folding) (c : CodePoint) : SetItem → Bool
  | .range low high => (folding.variants c).any fun n => low ≤ n && n ≤ high
  | .category kind negated ascii => kind.holds ascii c != negated

def CharSet.holds (set : CharSet) (c : CodePoint) : Bool :=
  (set.items.any fun i => i.holds set.folding c) != set.negated

/-! ## Widths -/

def Width.limit : Nat := 0x10000000000000000

def Width.cap (w : Width) : Width := ⟨min w.low limit, min w.high limit⟩

def Width.add (v w : Width) : Width := cap ⟨v.low + w.low, v.high + w.high⟩

def Width.either (v w : Width) : Width := ⟨min v.low w.low, max v.high w.high⟩

def Width.times (w : Width) (least : Nat) (most : Option Nat) : Width :=
  cap ⟨w.low * least,
    match most with
    | some n => w.high * n
    | none => if w.high = 0 then 0 else limit⟩

end Regex

structure Regex where
  source : Text
  flags : Regex.Flags
  node : Regex.Node
deriving DecidableEq, Repr

namespace Regex

def same (r s : Regex) : Bool := r.source = s.source && r.flags = s.flags

def Flags.names (f : Flags) : List Text :=
  [(f.template, ("re.TEMPLATE" : Text)), (f.ignoreCase, "re.IGNORECASE"),
   (f.multiline, "re.MULTILINE"), (f.dotAll, "re.DOTALL"), (f.verbose, "re.VERBOSE"),
   (f.ascii, "re.ASCII")].filterMap fun (on, name) => if on then some name else none

def literal (r : Regex) : Text :=
  let names := r.flags.names
  let flags : Text := if names.isEmpty then [] else ", " ++ Text.join "|" names
  "re.compile(" ++ r.source.quoted.take 200 ++ flags ++ ")"

end Regex

end Docsmith
