import Docsmith.Regex.Matcher
import Mathlib.Computability.Language

/-!
# What patterns match

A pattern of sets, sequences, branches, groups and optional parts denotes a language.  It
matches at a place just the texts of its language that stand there and leave a rest that what
comes behind the pattern accepts; which groups were matched on the way makes no difference.
-/

namespace Docsmith.Regex

variable {a : Node} {L : Language CodePoint}

def oneFrom (set : CharSet) : Language CodePoint := {s | ∃ c, set.holds c = true ∧ s = [c]}

theorem mem_oneFrom_iff {set : CharSet} {s : Text} :
    s ∈ oneFrom set ↔ ∃ c, set.holds c = true ∧ s = [c] := Iff.rfl

def Node.language? : Node → Option (Language CodePoint)
  | .empty => some 1
  | .one set => some (oneFrom set)
  | .seq a b => do return (← a.language?) * (← b.language?)
  | .alt a b => do return (← a.language?) + (← b.language?)
  | .group _ a => a.language?
  | .loop .greedy 0 (some 1) a => do return (← a.language?) + 1
  | _ => none

def Accepts (a : Node) (L : Language CodePoint) : Prop :=
  ∀ (t : Text) (accepted : Text → Prop) (k : Place → Option Place),
    (∀ q, (k q).isSome = true ↔ accepted (t.drop q.position)) →
    ∀ p, (a.run t.toArray p k).isSome = true ↔
      ∃ s ∈ L, ∃ rest, t.drop p.position = s ++ rest ∧ accepted rest

theorem accepts_empty : Accepts .empty 1 := by
  intro t accepted k hk p
  simp [Node.run, hk, Language.mem_one]

theorem accepts_one (set : CharSet) : Accepts (.one set) (oneFrom set) := by
  intro t accepted k hk p
  simp only [Node.run, List.getElem?_toArray]
  cases hc : t[p.position]? with
  | none =>
      have hdrop : t.drop p.position = [] := List.drop_eq_nil_of_le (List.getElem?_eq_none_iff.1 hc)
      refine iff_of_false nofun ?_
      rintro ⟨_, ⟨c, -, rfl⟩, rest, hsplit, -⟩
      rw [hdrop] at hsplit
      cases hsplit
  | some c =>
      obtain ⟨hlt, hget⟩ := List.getElem?_eq_some_iff.1 hc
      have hdrop : t.drop p.position = c :: t.drop (p.position + 1) := by
        rw [List.drop_eq_getElem_cons hlt, hget]
      rw [hdrop]
      dsimp only
      split
      case isTrue hholds =>
        rw [hk]
        constructor
        · exact fun h => ⟨[c], ⟨c, hholds, rfl⟩, _, rfl, h⟩
        · rintro ⟨_, ⟨d, -, rfl⟩, rest, hsplit, h⟩
          obtain ⟨-, rfl⟩ := List.cons.inj hsplit
          exact h
      case isFalse hholds =>
        refine iff_of_false nofun ?_
        rintro ⟨_, ⟨d, hd, rfl⟩, rest, hsplit, -⟩
        obtain ⟨rfl, -⟩ := List.cons.inj hsplit
        exact hholds hd

theorem accepts_seq {b : Node} {M : Language CodePoint} (ha : Accepts a L) (hb : Accepts b M) :
    Accepts (.seq a b) (L * M) := by
  intro t accepted k hk p
  rw [Node.run,
    ha t (fun u => ∃ s ∈ M, ∃ rest, u = s ++ rest ∧ accepted rest) _ (hb t accepted k hk) p]
  constructor
  · rintro ⟨s, hs, u, hsplit, s', hs', rest, rfl, h⟩
    exact ⟨s ++ s', Language.append_mem_mul hs hs', rest, by rw [hsplit, List.append_assoc], h⟩
  · rintro ⟨_, hmem, rest, hsplit, h⟩
    obtain ⟨s, hs, s', hs', rfl⟩ := Language.mem_mul.1 hmem
    exact ⟨s, hs, s' ++ rest, by rw [hsplit, List.append_assoc], s', hs', rest, rfl, h⟩

theorem isSome_or_iff {M : Language CodePoint} {x y : Option Place} {u : Text}
    {accepted : Text → Prop}
    (hx : x.isSome = true ↔ ∃ s ∈ L, ∃ rest, u = s ++ rest ∧ accepted rest)
    (hy : y.isSome = true ↔ ∃ s ∈ M, ∃ rest, u = s ++ rest ∧ accepted rest) :
    (x.or y).isSome = true ↔ ∃ s ∈ L + M, ∃ rest, u = s ++ rest ∧ accepted rest := by
  rw [Option.isSome_or, Bool.or_eq_true, hx, hy]
  simp only [Language.mem_add, or_and_right, exists_or]

theorem accepts_alt {b : Node} {M : Language CodePoint} (ha : Accepts a L) (hb : Accepts b M) :
    Accepts (.alt a b) (L + M) := by
  intro t accepted k hk p
  rw [Node.run]
  exact isSome_or_iff (ha t accepted k hk p) (hb t accepted k hk p)

theorem accepts_group (index : Nat) (ha : Accepts a L) : Accepts (.group index a) L := by
  intro t accepted k hk p
  rw [Node.run]
  exact ha t accepted _
    (fun q => hk { q with groups := q.groups.insert index (p.position, q.position) }) p

theorem run_optional (a : Node) (subject : Array CodePoint) (p : Place)
    (k : Place → Option Place) :
    (Node.loop .greedy 0 (some 1) a).run subject p k = (a.run subject p k).or (k p) := by
  simp [Node.run, greedyLoop]

theorem accepts_optional (ha : Accepts a L) : Accepts (.loop .greedy 0 (some 1) a) (L + 1) := by
  intro t accepted k hk p
  rw [run_optional]
  exact isSome_or_iff (ha t accepted k hk p) (accepts_empty t accepted k hk p)

theorem accepts_of_language? {a : Node} {L : Language CodePoint} (h : a.language? = some L) :
    Accepts a L := by
  fun_induction Node.language? a generalizing L with
  | case1 =>
      cases h
      exact accepts_empty
  | case2 set =>
      cases h
      exact accepts_one set
  | case3 a b iha ihb =>
      obtain ⟨M, hM, h⟩ := Option.bind_eq_some_iff.1 h
      obtain ⟨N, hN, h⟩ := Option.bind_eq_some_iff.1 h
      cases h
      exact accepts_seq (iha hM) (ihb hN)
  | case4 a b iha ihb =>
      obtain ⟨M, hM, h⟩ := Option.bind_eq_some_iff.1 h
      obtain ⟨N, hN, h⟩ := Option.bind_eq_some_iff.1 h
      cases h
      exact accepts_alt (iha hM) (ihb hN)
  | case5 index a ih => exact accepts_group index (ih h)
  | case6 a ih =>
      obtain ⟨M, hM, h⟩ := Option.bind_eq_some_iff.1 h
      cases h
      exact accepts_optional (ih hM)
  | case7 => cases h

/-- Behind the start of the text, an expression that begins at the start is not found. -/
theorem searchFrom_anchored (a : Node) (subject : Array CodePoint) (fuel : Nat) {start : Nat}
    (h : start ≠ 0) :
    searchFrom (.seq (.anchor (.beginning false)) a) subject fuel start = none := by
  induction fuel generalizing start with
  | zero => rfl
  | succ fuel ih => simp [searchFrom, Node.run, Anchor.holds, h, ih (Nat.succ_ne_zero start)]

theorem matches?_anchored_iff {r : Regex} (hr : r.node = .seq (.anchor (.beginning false)) a)
    (ha : a.language? = some L) (t : Text) :
    r.matches? t = true ↔ ∃ s ∈ L, ∃ rest, t = s ++ rest := by
  have hrun := accepts_of_language? ha t (fun _ => True) some (by simp) ⟨0, []⟩
  have hfirst : (Node.seq (.anchor (.beginning false)) a).run t.toArray ⟨0, []⟩ some =
      a.run t.toArray ⟨0, []⟩ some := by
    simp [Node.run, Anchor.holds]
  rw [matches?, search?, hr, searchFrom, hfirst]
  rw [List.drop_zero] at hrun
  simp only [and_true] at hrun
  rw [← hrun]
  cases hplace : a.run t.toArray ⟨0, []⟩ some with
  | none => simp [searchFrom_anchored]
  | some p => simp

end Docsmith.Regex
