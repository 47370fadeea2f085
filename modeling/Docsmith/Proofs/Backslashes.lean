import Docsmith.Text.Basic
import Mathlib.Algebra.Group.Nat.Even
import Mathlib.Data.List.TakeWhile

/-!
# Backslashes in front of a place

What follows a text is escaped just if the text ends with an odd number of backslashes.
-/

namespace Docsmith.Text

def backslashes (t : Text) : Nat := (t.reverse.takeWhile (· = CodePoint.ofChar '\\')).length

theorem backslashes_le (t : Text) : t.backslashes ≤ t.length := by
  simpa [backslashes] using (List.takeWhile_sublist (l := t.reverse) _).length_le

theorem backslashes_concat (t : Text) (c : CodePoint) :
    backslashes (t ++ [c]) = if c = '\\' then t.backslashes + 1 else 0 := by
  by_cases hc : c = '\\' <;> simp [backslashes, hc]

/-- A code point in front counts if it is a backslash and all others are. -/
theorem backslashes_cons (c : CodePoint) (t : Text) :
    backslashes (c :: t) =
      if c = '\\' ∧ t.backslashes = t.length then t.backslashes + 1 else t.backslashes := by
  unfold backslashes
  rw [List.reverse_cons, List.takeWhile_append, List.length_reverse]
  by_cases hall : (t.reverse.takeWhile (· = CodePoint.ofChar '\\')).length = t.length
  · by_cases hc : c = '\\' <;> simp [hall, hc]
  · simp [hall]

theorem backslashes_plain {c : CodePoint} (h : c ≠ '\\') (t : Text) :
    backslashes (c :: t) = t.backslashes := by
  rw [backslashes_cons, if_neg fun hboth => h hboth.1]

/-- A backslash and the code point that it escapes do not matter for what comes later. -/
theorem even_backslashes_escape (d : CodePoint) (t : Text) :
    Even (backslashes (CodePoint.ofChar '\\' :: d :: t)) ↔ Even t.backslashes := by
  have hle := t.backslashes_le
  rw [backslashes_cons, backslashes_cons, List.length_cons]
  by_cases hall : t.backslashes = t.length
  · by_cases hd : d = '\\'
    · simp [hd, hall, Nat.even_add_one]
    · simp [hd, hall]
  · have hne : t.backslashes ≠ t.length + 1 := by omega
    simp [hall, hne]

end Docsmith.Text
