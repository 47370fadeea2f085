import Docsmith.Value.Basic
import Mathlib.Data.List.Induction

/-!
# Dictionaries over dictionaries

Keys are the same if they stand for the same, so being the same is symmetric and transitive.
Entries that are written over a dictionary are all in it then, together with the entries of the
dictionary under other keys; the keys of the dictionary come first and keep their spelling.
-/

namespace Docsmith

/-! ## What keys stand for -/

inductive Magnitude where
  | finite (units : Int)
  | infinite (negative : Bool)

inductive KeyClass where
  | null
  | number (m : Magnitude)
  | str (s : Text)
  | bytes (b : Bytes)
  | regex (source : Text) (flags : Regex.Flags)
  | path (p : Text)
  | date (d : Day)
  | moment (m : Moment)
  | selector (s : Selector)

namespace Binary64

def units (n : Int) : Int := n * (twoTo 1074 : Int)

theorem twoTo_ne_zero (n : Nat) : twoTo n ≠ 0 := by
  simp [twoTo]

theorem units_inj {m n : Int} : units m = units n ↔ m = n :=
  ⟨Int.eq_of_mul_eq_mul_right (Int.natCast_ne_zero.2 (twoTo_ne_zero 1074)), congrArg units⟩

def magnitude? : Binary64 → Option Magnitude
  | .nan => none
  | .infinite negative => some (.infinite negative)
  | .finite s m e => some (.finite (scaled s m e))

theorem equal_iff {x y : Binary64} :
    x.equal y = true ↔ x.magnitude?.isSome = true ∧ x.magnitude? = y.magnitude? := by
  cases x with
  | nan => simp [equal, compare?, magnitude?]
  | infinite a =>
      cases y with
      | infinite b => cases a <;> cases b <;> simp [equal, compare?, magnitude?]
      | _ => cases a <;> simp [equal, compare?, magnitude?]
  | finite s m e =>
      cases y with
      | infinite b => cases b <;> simp [equal, compare?, magnitude?]
      | _ => simp [equal, compare?, magnitude?]

theorem equalInt_iff {x : Binary64} {n : Int} :
    x.equalInt n = true ↔ x.magnitude? = some (.finite (units n)) := by
  cases x with
  | nan => simp [equalInt, compareInt, magnitude?]
  | infinite a => cases a <;> simp [equalInt, compareInt, magnitude?]
  | finite s m e =>
      have hcompare : compareInt (.finite s m e) n = some (compare (scaled s m e) (units n)) := rfl
      rw [equalInt, hcompare]
      simp [magnitude?]

end Binary64

namespace Value

/-- What a key stands for.  Not-a-number, a commit and a handler are not compared by what they
stand for. -/
def keyClass : Value → Option KeyClass
  | .null => some .null
  | .float x => x.magnitude?.map .number
  | .str s => some (.str s)
  | .bytes b => some (.bytes b)
  | .regex r => some (.regex r.source r.flags)
  | .path p => some (.path p)
  | .date d => some (.date d)
  | .moment m => some (.moment m)
  | .selector s => some (.selector s)
  | v => v.integer?.map fun n => .number (.finite (Binary64.units n))

theorem sameKey_iff {v w : Value} :
    v.sameKey w = true ↔ v.keyClass.isSome = true ∧ v.keyClass = w.keyClass := by
  cases v with
  | float x =>
      cases hx : x.magnitude? with
      | none =>
          cases w <;>
            simp [sameKey, keyClass, integer?, Binary64.equal_iff, Binary64.equalInt_iff, hx]
      | some m =>
          cases w with
          | float y =>
              cases hy : y.magnitude? <;>
                simp [sameKey, keyClass, Binary64.equal_iff, hx, hy]
          | _ => simp [sameKey, keyClass, integer?, Binary64.equalInt_iff, hx]
  | _ =>
      cases w with
      | float y =>
          cases hy : y.magnitude? <;>
            simp [sameKey, keyClass, integer?, Binary64.equalInt_iff, hy, @eq_comm Magnitude]
      | _ => simp [sameKey, keyClass, integer?, Regex.same, Binary64.units_inj]

theorem sameKey_symm {v w : Value} (h : v.sameKey w = true) : w.sameKey v = true := by
  rw [sameKey_iff] at h ⊢
  exact ⟨h.2 ▸ h.1, h.2.symm⟩

theorem sameKey_trans {u v w : Value} (huv : u.sameKey v = true) (hvw : v.sameKey w = true) :
    u.sameKey w = true := by
  rw [sameKey_iff] at huv hvw ⊢
  exact ⟨huv.1, huv.2.trans hvw.2⟩

theorem sameKey_of_common {u v k : Value} (hu : u.sameKey k = true) (hv : v.sameKey k = true) :
    u.sameKey v = true :=
  sameKey_trans hu (sameKey_symm hv)

end Value

namespace Dict

def Distinct (d : Dict) : Prop := d.Pairwise fun e e' => e.1.sameKey e'.1 = false

def Holds (d : Dict) (key value : Value) : Prop :=
  ∃ k, (k, value) ∈ d ∧ (k = key ∨ k.sameKey key = true)

/-! ## One entry -/

theorem insert_of_absent {key : Value} {d : Dict} (h : ∀ e ∈ d, e.1.sameKey key = false)
    (value : Value) : insert key value d = d ++ [(key, value)] := by
  induction d with
  | nil => rfl
  | cons e d ih =>
      obtain ⟨he, hrest⟩ := List.forall_mem_cons.1 h
      simp [insert, he, ih hrest]

theorem insert_of_present {key : Value} {before : Dict}
    (hbefore : ∀ e ∈ before, e.1.sameKey key = false) {k : Value} (h : k.sameKey key = true)
    (old value : Value) (after : Dict) :
    insert key value (before ++ (k, old) :: after) = before ++ (k, value) :: after := by
  induction before with
  | nil => simp [insert, h]
  | cons e before ih =>
      obtain ⟨he, hrest⟩ := List.forall_mem_cons.1 hbefore
      simp [insert, he, ih hrest]

theorem absent_or_present (key : Value) (d : Dict) :
    (∀ e ∈ d, e.1.sameKey key = false) ∨
      ∃ before k old after, d = before ++ (k, old) :: after ∧
        (∀ e ∈ before, e.1.sameKey key = false) ∧ k.sameKey key = true := by
  induction d with
  | nil => simp
  | cons e d ih =>
      cases he : e.1.sameKey key with
      | true => exact .inr ⟨[], e.1, e.2, d, rfl, by simp, he⟩
      | false =>
          rcases ih with h | ⟨before, k, old, after, rfl, hbefore, hk⟩
          · exact .inl (List.forall_mem_cons.2 ⟨he, h⟩)
          · exact .inr ⟨e :: before, k, old, after, rfl, List.forall_mem_cons.2 ⟨he, hbefore⟩, hk⟩

theorem keys_insert (key value : Value) (d : Dict) :
    (insert key value d).map Prod.fst = d.map Prod.fst ∨
      (insert key value d).map Prod.fst = d.map Prod.fst ++ [key] := by
  rcases absent_or_present key d with h | ⟨before, k, old, after, rfl, hbefore, hk⟩
  · right
    simp [insert_of_absent h]
  · left
    simp [insert_of_present hbefore hk]

theorem Distinct.insert {d : Dict} (h : d.Distinct) (key value : Value) :
    (Dict.insert key value d).Distinct := by
  rcases absent_or_present key d with habsent | ⟨before, k, old, after, rfl, hbefore, hk⟩
  · rw [insert_of_absent habsent, Distinct, List.pairwise_append]
    exact ⟨h, by simp, by simpa using habsent⟩
  · rw [insert_of_present hbefore hk]
    rw [Distinct, List.pairwise_append, List.pairwise_cons] at h ⊢
    simpa using h

theorem holds_insert_self (key value : Value) (d : Dict) :
    (insert key value d).Holds key value := by
  rcases absent_or_present key d with h | ⟨before, k, old, after, rfl, hbefore, hk⟩
  · rw [insert_of_absent h]
    exact ⟨key, by simp, .inl rfl⟩
  · rw [insert_of_present hbefore hk]
    exact ⟨k, by simp, .inr hk⟩

theorem Holds.insert {d : Dict} {key value : Value} (h : d.Holds key value) {other : Value}
    (hother : key.sameKey other = false) (value' : Value) :
    (Dict.insert other value' d).Holds key value := by
  obtain ⟨k, hmem, hk⟩ := h
  refine ⟨k, ?_, hk⟩
  have hne : ¬k.sameKey other = true := by
    intro hsame
    have hkey : key.sameKey other = true := by
      rcases hk with rfl | hk
      · exact hsame
      · exact Value.sameKey_trans (Value.sameKey_symm hk) hsame
    simp [hkey] at hother
  rcases absent_or_present other d with habsent | ⟨before, k', old, after, rfl, hbefore, hk'⟩
  · rw [insert_of_absent habsent]
    exact List.mem_append_left _ hmem
  · rw [insert_of_present hbefore hk']
    simp only [List.mem_append, List.mem_cons, Prod.mk.injEq] at hmem ⊢
    rcases hmem with hmem | ⟨rfl, -⟩ | hmem
    · exact .inl hmem
    · exact absurd hk' hne
    · exact .inr (.inr hmem)

theorem Distinct.mem_insert {d : Dict} (h : d.Distinct) {key value : Value} {e : Value × Value}
    (he : e ∈ Dict.insert key value d) :
    e.2 = value ∧ (e.1 = key ∨ e.1.sameKey key = true) ∨ e ∈ d ∧ e.1.sameKey key = false := by
  rcases absent_or_present key d with habsent | ⟨before, k, old, after, rfl, hbefore, hk⟩
  · rw [insert_of_absent habsent] at he
    rcases List.mem_append.1 he with he | he
    · exact .inr ⟨he, habsent e he⟩
    · obtain rfl := List.mem_singleton.1 he
      exact .inl ⟨rfl, .inl rfl⟩
  · rw [insert_of_present hbefore hk] at he
    rw [Distinct, List.pairwise_append, List.pairwise_cons] at h
    simp only [List.mem_append, List.mem_cons] at he ⊢
    rcases he with he | rfl | he
    · exact .inr ⟨.inl he, hbefore e he⟩
    · exact .inl ⟨rfl, .inr hk⟩
    · refine .inr ⟨.inr (.inr he), Bool.eq_false_iff.2 fun hsame => ?_⟩
      have hsame' := Value.sameKey_of_common hk hsame
      simp [h.2.1.1 e he] at hsame'

/-! ## Many entries -/

theorem keys_update (d own : Dict) : d.map Prod.fst <+: (update d own).map Prod.fst := by
  induction own generalizing d with
  | nil => exact List.prefix_rfl
  | cons e own ih =>
      have hrest := ih (insert e.1 e.2 d)
      rcases keys_insert e.1 e.2 d with h | h
      · rw [h] at hrest
        exact hrest
      · rw [h] at hrest
        exact (List.prefix_append _ _).trans hrest

theorem Distinct.update {d : Dict} (h : d.Distinct) (own : Dict) :
    (Dict.update d own).Distinct := by
  induction own generalizing d with
  | nil => exact h
  | cons e own ih => exact ih (h.insert e.1 e.2)

theorem Holds.update {d : Dict} {key value : Value} (h : d.Holds key value) {own : Dict}
    (hown : ∀ e ∈ own, key.sameKey e.1 = false) : (Dict.update d own).Holds key value := by
  induction own generalizing d with
  | nil => exact h
  | cons e own ih =>
      obtain ⟨he, hrest⟩ := List.forall_mem_cons.1 hown
      exact ih (h.insert he e.2) hrest

theorem holds_update_of_mem {own : Dict} (h : own.Distinct) {e : Value × Value} (he : e ∈ own)
    (d : Dict) : (update d own).Holds e.1 e.2 := by
  induction own generalizing d with
  | nil => cases he
  | cons first own ih =>
      obtain ⟨hfirst, hown⟩ := List.pairwise_cons.1 h
      rcases List.mem_cons.1 he with rfl | he
      · exact (holds_insert_self e.1 e.2 d).update hfirst
      · exact ih hown he (insert first.1 first.2 d)

theorem Distinct.mem_update {d : Dict} (h : d.Distinct) {own : Dict} {e : Value × Value}
    (he : e ∈ Dict.update d own) :
    (∃ e' ∈ own, e.2 = e'.2 ∧ (e.1 = e'.1 ∨ e.1.sameKey e'.1 = true)) ∨
      e ∈ d ∧ ∀ e' ∈ own, e.1.sameKey e'.1 = false := by
  induction own generalizing d with
  | nil => exact .inr ⟨he, by simp⟩
  | cons first own ih =>
      rcases ih (h.insert first.1 first.2) he with ⟨e', he', hsame⟩ | ⟨he, hown⟩
      · exact .inl ⟨e', List.mem_cons_of_mem _ he', hsame⟩
      · rcases h.mem_insert he with hsame | ⟨he, hfirst⟩
        · exact .inl ⟨first, List.mem_cons_self, hsame⟩
        · exact .inr ⟨he, List.forall_mem_cons.2 ⟨hfirst, hown⟩⟩

theorem update_append (before : Dict) {d result : Dict} (h : Distinct (before ++ result))
    (hkeys : d.map Prod.fst <+: result.map Prod.fst) (hself : ∀ e ∈ d, e.1.sameKey e.1 = true) :
    update (before ++ d) result = before ++ result := by
  -- What has been written already is `before`, and what will be written over is `d`.
  induction result generalizing before d with
  | nil =>
      have hd : d = [] := by simpa using hkeys
      simp [hd, update]
  | cons e result ih =>
      have hbefore : ∀ e' ∈ before, e'.1.sameKey e.1 = false := fun e' he' =>
        (List.pairwise_append.1 h).2.2 e' he' e List.mem_cons_self
      have hrest : Distinct ((before ++ [e]) ++ result) := by simpa using h
      cases d with
      | nil =>
          have hstep : insert e.1 e.2 before = before ++ [e] := insert_of_absent hbefore e.2
          calc update (before ++ []) (e :: result)
              = update ((before ++ [e]) ++ []) result := by simp [update, hstep]
            _ = before ++ e :: result := by
                rw [ih (before ++ [e]) (d := []) hrest (by simp) (by simp)]
                simp
      | cons old d =>
          obtain ⟨hold, hself⟩ := List.forall_mem_cons.1 hself
          obtain ⟨hkey, hkeys⟩ := List.cons_prefix_cons.1 hkeys
          have hsame : old.1.sameKey e.1 = true := hkey ▸ hold
          have hplace : (old.1, e.2) = e := Prod.ext hkey rfl
          have hstep : insert e.1 e.2 (before ++ old :: d) = before ++ e :: d := by
            rw [insert_of_present hbefore hsame old.2 e.2 d, hplace]
          calc update (before ++ old :: d) (e :: result)
              = update ((before ++ [e]) ++ d) result := by simp [update, hstep]
            _ = before ++ e :: result := by
                rw [ih (before ++ [e]) hrest hkeys hself]
                simp

/-- Writing the same entries over a dictionary, and the result over it again, changes nothing. -/
theorem update_update {d : Dict} (h : d.Distinct) (hself : ∀ e ∈ d, e.1.sameKey e.1 = true)
    (own : Dict) : update d (update d own) = update d own :=
  update_append [] (h.update own) (keys_update d own) hself

end Dict

end Docsmith
