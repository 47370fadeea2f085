import Docsmith.Regex.Basic
import Docsmith.Table

/-!
# Matching

A backtracking matcher in continuation style: an expression is matched at a place, and
then what follows it.  Of several ways to match, the first in the order of the
expression counts.
-/

namespace Docsmith.Regex

structure Place where
  position : Nat
  groups : Table Nat (Nat × Nat)
deriving DecidableEq, Repr

abbrev Matcher := Place → (Place → Option Place) → Option Place

variable (subject : Array CodePoint)

def isWordAt (ascii : Bool) (position : Nat) : Bool :=
  ((subject[position]?).map fun c => Category.word.holds ascii c).getD false

def Anchor.holds (position : Nat) : Anchor → Bool
  | .beginning multiline =>
      position = 0 || (multiline && subject[position - 1]? = some Text.newline)
  | .ending multiline =>
      position = subject.size
        || (subject[position]? = some Text.newline && (multiline || position + 1 = subject.size))
  | .textStart => position = 0
  | .textEnd => position = subject.size
  | .boundary negated ascii =>
      subject.size ≠ 0 &&
        ((0 < position && isWordAt subject ascii (position - 1)) != isWordAt subject ascii position)
          != negated

/-- A loop runs its body while it may.  Once the least count is reached, a round that
begins where the last one began is not tried.  The fuel is the least count and the
rounds that can still move on. -/
def greedyLoop (body : Matcher) (least : Nat) (most : Option Nat) (k : Place → Option Place) :
    Nat → Nat → Option Nat → Place → Option Place
  | 0, _, _, _ => none
  | fuel + 1, count, last, p =>
      if count < least then body p (greedyLoop body least most k fuel (count + 1) last)
      else if most.all (count < ·) && last ≠ some p.position then
        (body p (greedyLoop body least most k fuel (count + 1) (some p.position))).or (k p)
      else k p

def lazyLoop (body : Matcher) (least : Nat) (most : Option Nat) (k : Place → Option Place) :
    Nat → Nat → Option Nat → Place → Option Place
  | 0, _, _, _ => none
  | fuel + 1, count, last, p =>
      if count < least then body p (lazyLoop body least most k fuel (count + 1) last)
      else
        (k p).or <|
          if most.all (count < ·) && last ≠ some p.position then
            body p (lazyLoop body least most k fuel (count + 1) (some p.position))
          else none

def possessiveLoop (body : Matcher) (least : Nat) (most : Option Nat) :
    Nat → Nat → Option Nat → Place → Option Place
  | 0, _, _, p => some p
  | fuel + 1, count, last, p =>
      if count < least then
        match body p some with
        | some q => possessiveLoop body least most fuel (count + 1) last q
        | none => none
      else if most.all (count < ·) && last ≠ some p.position then
        match body p some with
        | some q => possessiveLoop body least most fuel (count + 1) (some p.position) q
        | none => some p
      else some p

def sameFolded (folding : Folding) (c d : CodePoint) : Bool :=
  match folding with
  | .exact => c = d
  | .ascii => c.asciiLower = d.asciiLower
  | .unicode => c.lower = d.lower

def occursAgain (folding : Folding) (start stop position : Nat) : Bool :=
  position + (stop - start) ≤ subject.size &&
    (List.range (stop - start)).all fun i =>
      match subject[start + i]?, subject[position + i]? with
      | some c, some d => sameFolded folding c d
      | _, _ => false

def Node.run : Node → Matcher
  | .empty, p, k => k p
  | .one set, p, k =>
      match subject[p.position]? with
      | some c => if set.holds c then k { p with position := p.position + 1 } else none
      | none => none
  | .anchor a, p, k => if a.holds subject p.position then k p else none
  | .seq a b, p, k => a.run p fun q => b.run q k
  | .alt a b, p, k => (a.run p k).or (b.run p k)
  | .group index a, p, k =>
      a.run p fun q => k { q with groups := q.groups.insert index (p.position, q.position) }
  | .loop greed least most a, p, k =>
      let fuel := least + (subject.size - p.position) + 2
      match greed with
      | .greedy => greedyLoop a.run least most k fuel 0 none p
      | .lazy => lazyLoop a.run least most k fuel 0 none p
      | .possessive => (possessiveLoop a.run least most fuel 0 none p).bind k
  | .atomic a, p, k => (a.run p some).bind k
  | .ahead negated a, p, k =>
      match a.run p some with
      | some q => if negated then none else k { p with groups := q.groups }
      | none => if negated then k p else none
  | .behind negated width a, p, k =>
      let found :=
        if width.low ≤ p.position then a.run { p with position := p.position - width.low } some
        else none
      match found with
      | some q => if negated then none else k { p with groups := q.groups }
      | none => if negated then k p else none
  | .back index folding, p, k =>
      match p.groups.get? index with
      | some (start, stop) =>
          if occursAgain subject folding start stop p.position then
            k { p with position := p.position + (stop - start) }
          else none
      | none => none
  | .cond index yes no, p, k => if p.groups.has index then yes.run p k else no.run p k

end Docsmith.Regex

namespace Docsmith.Regex

def searchFrom (node : Node) (subject : Array CodePoint) : Nat → Nat → Option (Nat × Nat)
  | 0, _ => none
  | fuel + 1, start =>
      match node.run subject ⟨start, []⟩ some with
      | some p => some (start, p.position)
      | none => searchFrom node subject fuel (start + 1)

def search? (r : Regex) (t : Text) : Option (Nat × Nat) :=
  searchFrom r.node t.toArray (t.length + 1) 0

def matches? (r : Regex) (t : Text) : Bool := (r.search? t).isSome

end Docsmith.Regex
