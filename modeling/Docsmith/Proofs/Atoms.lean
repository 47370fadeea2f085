import Docsmith.Form.Reader
import Mathlib.Algebra.Group.Nat.Defs

/-!
# Atoms

What an atom stands for is decided by its spelling.  An integer is written in decimal
digits and read back from them, and the limit on digits is a limit on the size of the
number.
-/

namespace Docsmith

theorem CodePoint.digitValue?_lt {c : CodePoint} {d : Nat} (h : c.digitValue? = some d) :
    d < 10 := by
  obtain ⟨z, hz, rfl⟩ := Option.map_eq_some_iff.1 h
  have hrange := List.find?_some hz
  simp only [Bool.and_eq_true, decide_eq_true_eq] at hrange
  omega

theorem CodePoint.digitValue?_ofChar {c : Char} (h : c.isDigit = true) :
    (CodePoint.ofChar c).digitValue? = some (c.toNat - '0'.toNat) := by
  have hrange : 48 ≤ c.toNat ∧ c.toNat ≤ 57 := Char.isDigit_iff_toNat.1 h
  have hfind : digitZeros.find? (fun z => z ≤ c.toNat && c.toNat < z + 10) = some 48 := by
    rw [digitZeros, List.find?_cons_of_pos]
    simp only [Bool.and_eq_true, decide_eq_true_eq]
    omega
  exact congrArg (Option.map (c.toNat - ·)) hfind

theorem CodePoint.ofChar_ne_of_isDigit {c d : Char} (h : c.isDigit = true)
    (hd : d.isDigit = false) : CodePoint.ofChar c ≠ CodePoint.ofChar d := by
  intro heq
  have hnat : c.toNat = d.toNat := congrArg CodePoint.toNat heq
  obtain rfl : c = d := Char.toNat_inj.1 hnat
  simp_all

namespace Text

theorem foldDigits_lt {base : Nat} {ds : List Nat} (h : ∀ d ∈ ds, d < base) :
    foldDigits base ds < base ^ ds.length := by
  have hfold : ∀ n, ds.foldl (fun n d => n * base + d) n < (n + 1) * base ^ ds.length := by
    induction ds with
    | nil => simp
    | cons d ds ih =>
        intro n
        have hd := h d (by simp)
        have hstep : n * base + d + 1 ≤ (n + 1) * base := by
          rw [Nat.add_mul]
          omega
        calc (d :: ds).foldl (fun n d => n * base + d) n
            < (n * base + d + 1) * base ^ ds.length :=
              ih (fun e he => h e (by simp [he])) (n * base + d)
          _ ≤ (n + 1) * base * base ^ ds.length := Nat.mul_le_mul_right _ hstep
          _ = (n + 1) * base ^ (d :: ds).length := by
              rw [List.length_cons, Nat.pow_succ, Nat.mul_assoc, Nat.mul_comm base]
  simpa [foldDigits] using hfold 0

theorem foldDigits_ofDigitChars (cs : List Char) :
    foldDigits 10 (cs.map fun c => c.toNat - '0'.toNat) = Nat.ofDigitChars 10 cs 0 := by
  simp [foldDigits, Nat.ofDigitChars_eq_foldl, List.foldl_map, Nat.mul_comm]

theorem ofNat_eq_map (n : Nat) : ofNat n = (Nat.toDigits 10 n).map CodePoint.ofChar := by
  simp [ofNat, ofString]

end Text

namespace Binary64

theorem lt_of_mem_takeDigits {t : Text} : ∀ d ∈ (takeDigits t).1, d < 10 := by
  induction t with
  | nil => simp [takeDigits]
  | cons c r ih =>
      cases hc : c.digitValue? with
      | none => simp [takeDigits, hc]
      | some v =>
          simp only [takeDigits, hc, List.mem_cons, forall_eq_or_imp]
          exact ⟨CodePoint.digitValue?_lt hc, ih⟩

theorem takeDigits_map {cs : List Char} (h : ∀ c ∈ cs, c.isDigit = true) :
    takeDigits (cs.map CodePoint.ofChar) = (cs.map fun c => c.toNat - '0'.toNat, []) := by
  induction cs with
  | nil => rfl
  | cons c cs ih =>
      have hc := CodePoint.digitValue?_ofChar (h c (by simp))
      simp only [List.map_cons, takeDigits, hc]
      rw [ih fun c hc => h c (by simp [hc])]

end Binary64

namespace Form

theorem integerFits_iff (n : Int) : integerFits n = true ↔ n.natAbs < 10 ^ maxIntegerDigits := by
  rw [integerFits, decide_eq_true_iff]
  exact Nat.length_repr_le_iff (by decide)

theorem natAbs_signedInt (negative : Bool) (n : Nat) : (signedInt negative n).natAbs = n := by
  cases negative <;> simp [signedInt]

def digitsOf (n : Int) : List Nat :=
  (Nat.toDigits 10 n.natAbs).map fun c => c.toNat - '0'.toNat

theorem foldDigits_digitsOf (n : Int) : Text.foldDigits 10 (digitsOf n) = n.natAbs := by
  rw [digitsOf, Text.foldDigits_ofDigitChars, Nat.ofDigitChars_ten_toDigits]

theorem length_digitsOf_le_iff {n : Int} :
    (digitsOf n).length ≤ maxIntegerDigits ↔ integerFits n = true := by
  rw [integerFits, decide_eq_true_iff, Nat.repr_eq_ofList_toDigits, String.length_ofList, digitsOf,
    List.length_map]

theorem lt_of_mem_decimalLiteral? {t : Text} {negative : Bool} {digits : List Nat}
    (h : decimalLiteral? t = some (negative, digits)) : ∀ d ∈ digits, d < 10 := by
  simp only [decimalLiteral?] at h
  split at h
  · cases h
    exact Binary64.lt_of_mem_takeDigits
  · cases h

theorem takeDigits_ofNat (n : Nat) : Binary64.takeDigits (Text.ofNat n) = (digitsOf n, []) := by
  rw [Text.ofNat_eq_map, Binary64.takeDigits_map fun c => Nat.isDigit_of_mem_toDigits (by decide)
    (by decide)]
  rfl

theorem takeSign_ofNat (n : Nat) : Binary64.takeSign (Text.ofNat n) = (false, Text.ofNat n) := by
  have hdigit : ∀ c ∈ Nat.toDigits 10 n, c.isDigit = true := fun c =>
    Nat.isDigit_of_mem_toDigits (by decide) (by decide)
  rw [Text.ofNat_eq_map]
  cases hd : Nat.toDigits 10 n with
  | nil => exact absurd hd Nat.toDigits_ne_nil
  | cons c cs =>
      have hc : c.isDigit = true := hdigit c (by simp [hd])
      have hminus := CodePoint.ofChar_ne_of_isDigit hc (show '-'.isDigit = false by decide)
      have hplus := CodePoint.ofChar_ne_of_isDigit hc (show '+'.isDigit = false by decide)
      simp [Binary64.takeSign, hminus, hplus]

theorem decimalLiteral?_ofInt (n : Int) :
    decimalLiteral? (Text.ofInt n) = some (decide (n < 0), digitsOf n) := by
  have hne (n : Int) : (digitsOf n).isEmpty = false := by
    simp [digitsOf, Nat.toDigits_ne_nil]
  cases n with
  | ofNat k =>
      simp [decimalLiteral?, Text.ofInt, takeSign_ofNat, takeDigits_ofNat, hne]
  | negSucc k =>
      have hk : digitsOf (Int.negSucc k) = digitsOf ((k + 1 : Nat) : Int) := rfl
      have hnegative : Int.negSucc k < 0 := Int.negSucc_lt_zero k
      have hdigits := takeDigits_ofNat (k + 1)
      simp [decimalLiteral?, Text.ofInt, Binary64.takeSign, hdigits, hk, hne, hnegative]

/-! ## Reading an atom -/

structure IsName (t : Text) : Prop where
  notNil : t ≠ "nil"
  notTrue : t ≠ "true"
  notFalse : t ≠ "false"
  notKeyword : t.head? ≠ some (CodePoint.ofChar ':')
  notDecimal : decimalLiteral? t = none
  notHex : hexLiteral? t = none
  notFloat : floatLiteral? t = none

theorem ofAtom_of_isName {t : Text} (h : IsName t) : ofAtom t = .ok (ofName t) := by
  simp [ofAtom, h.notNil, h.notTrue, h.notFalse, h.notKeyword, h.notDecimal, h.notHex,
    h.notFloat]

inductive Spells (t : Text) : Form → Prop
  | nil : Spells t .nil
  | bool (b : Bool) : Spells t (.bool b)
  | keyword (colon : t.head? = some (CodePoint.ofChar ':')) :
      Spells t (.keyword (t.dropWhile (· = ':')))
  | decimal {negative : Bool} {digits : List Nat}
      (literal : decimalLiteral? t = some (negative, digits))
      (fits : digits.length ≤ maxIntegerDigits) :
      Spells t (.int (signedInt negative (Text.foldDigits 10 digits)))
  | hex {negative : Bool} {digits : List Nat} (literal : hexLiteral? t = some (negative, digits)) :
      Spells t (.int (signedInt negative (Text.foldDigits 16 digits)))
  | float (x : Binary64) : Spells t (.float x)
  | name (h : IsName t) : Spells t (ofName t)

theorem spells_of_ofAtom {t : Text} {f : Form} (h : ofAtom t = .ok f) : Spells t f := by
  unfold ofAtom at h
  split at h
  case isTrue =>
    cases h
    exact .nil
  case isFalse hnil =>
    split at h
    case isTrue =>
      cases h
      exact .bool true
    case isFalse htrue =>
      split at h
      case isTrue =>
        cases h
        exact .bool false
      case isFalse hfalse =>
        split at h
        case isTrue colon =>
          cases h
          exact .keyword colon
        case isFalse hcolon =>
          split at h
          case h_1 negative digits literal =>
            split at h
            case isTrue => cases h
            case isFalse fits =>
              cases h
              exact .decimal literal (Nat.le_of_not_lt fits)
          case h_2 hdecimal =>
            split at h
            case h_1 negative digits literal =>
              cases h
              exact .hex literal
            case h_2 hhex =>
              split at h
              case h_1 x _ =>
                cases h
                exact .float x
              case h_2 hfloat =>
                cases h
                exact .name ⟨hnil, htrue, hfalse, hcolon,
                  Option.eq_none_iff_forall_ne_some.2 fun e => hdecimal e.1 e.2,
                  Option.eq_none_iff_forall_ne_some.2 fun e => hhex e.1 e.2,
                  Option.eq_none_iff_forall_ne_some.2 hfloat⟩

theorem exists_ofAtom {t : Text} (h : ∀ negative digits,
    decimalLiteral? t = some (negative, digits) → digits.length ≤ maxIntegerDigits) :
    ∃ f, ofAtom t = .ok f := by
  unfold ofAtom
  split
  · exact ⟨_, rfl⟩
  split
  · exact ⟨_, rfl⟩
  split
  · exact ⟨_, rfl⟩
  split
  · exact ⟨_, rfl⟩
  split
  case h_1 negative digits literal =>
    rw [if_neg (Nat.not_lt.2 (h negative digits literal))]
    exact ⟨_, rfl⟩
  split
  · exact ⟨_, rfl⟩
  split <;> exact ⟨_, rfl⟩

theorem decimalLiteral?_colon (r : Text) : decimalLiteral? (CodePoint.ofChar ':' :: r) = none := by
  have hsign : Binary64.takeSign (CodePoint.ofChar ':' :: r) =
      (false, CodePoint.ofChar ':' :: r) := by
    rw [Binary64.takeSign, if_neg (by decide), if_neg (by decide)]
  have hdigits : Binary64.takeDigits (CodePoint.ofChar ':' :: r) =
      ([], CodePoint.ofChar ':' :: r) := by
    rw [Binary64.takeDigits, show (CodePoint.ofChar ':').digitValue? = none by decide]
  simp [decimalLiteral?, hsign, hdigits]

theorem hexLiteral?_colon (r : Text) : hexLiteral? (CodePoint.ofChar ':' :: r) = none := by
  have hsign : Binary64.takeSign (CodePoint.ofChar ':' :: r) =
      (false, CodePoint.ofChar ':' :: r) := by
    rw [Binary64.takeSign, if_neg (by decide), if_neg (by decide)]
  have hzero : CodePoint.ofChar ':' ≠ CodePoint.ofChar '0' := by decide
  simp only [hexLiteral?, hsign]
  cases r with
  | nil => rfl
  | cons x digits => simp [hzero]

theorem hexLiteral?_of_decimalLiteral? {t : Text} {e : Bool × List Nat}
    (h : decimalLiteral? t = some e) : hexLiteral? t = none := by
  simp only [decimalLiteral?, hexLiteral?] at h ⊢
  generalize (Binary64.takeSign t).2 = body at h ⊢
  match body with
  | [] => rfl
  | [_] => rfl
  | z :: x :: digits =>
      refine if_neg fun hmark => ?_
      simp only [Bool.and_eq_true, Bool.or_eq_true, decide_eq_true_eq] at hmark
      obtain ⟨⟨⟨rfl, hx⟩, -⟩, -⟩ := hmark
      have hzero : (CodePoint.ofChar '0').digitValue? = some 0 := by decide
      have hnone : x.digitValue? = none := by rcases hx with rfl | rfl <;> decide
      have hend : x :: digits ≠ Text.ofString "N" := by
        intro heq
        have hhead : x = CodePoint.ofChar 'N' := (List.cons.inj heq).1
        rcases hx with rfl | rfl <;> revert hhead <;> decide
      simp [Binary64.takeDigits, hzero, hnone, hend] at h

/-- A literal is read as the number that its digits spell, unless there are too many. -/
theorem ofAtom_of_decimalLiteral? {t : Text} {negative : Bool} {digits : List Nat}
    (h : decimalLiteral? t = some (negative, digits)) :
    ofAtom t = if digits.length > maxIntegerDigits then .error (.integerTooLong digits.length)
      else .ok (.int (signedInt negative (Text.foldDigits 10 digits))) := by
  have hnil : t ≠ "nil" := by
    rintro rfl
    rw [show decimalLiteral? "nil" = none by decide] at h
    cases h
  have htrue : t ≠ "true" := by
    rintro rfl
    rw [show decimalLiteral? "true" = none by decide] at h
    cases h
  have hfalse : t ≠ "false" := by
    rintro rfl
    rw [show decimalLiteral? "false" = none by decide] at h
    cases h
  have hcolon : t.head? ≠ some (CodePoint.ofChar ':') := by
    intro hc
    obtain ⟨r, rfl⟩ := List.head?_eq_some_iff.1 hc
    simp [decimalLiteral?_colon] at h
  simp [ofAtom, hnil, htrue, hfalse, hcolon, h]

theorem ofAtom_keyword {name : Text} (h : name.head? ≠ some (CodePoint.ofChar ':')) :
    ofAtom (CodePoint.ofChar ':' :: name) = .ok (.keyword name) := by
  have hnil : CodePoint.ofChar ':' :: name ≠ Text.ofString "nil" := fun heq =>
    absurd (List.cons.inj heq).1 (by decide)
  have htrue : CodePoint.ofChar ':' :: name ≠ Text.ofString "true" := fun heq =>
    absurd (List.cons.inj heq).1 (by decide)
  have hfalse : CodePoint.ofChar ':' :: name ≠ Text.ofString "false" := fun heq =>
    absurd (List.cons.inj heq).1 (by decide)
  have hstrip : (CodePoint.ofChar ':' :: name).dropWhile (· = CodePoint.ofChar ':') = name := by
    cases name with
    | nil => rfl
    | cons c r =>
        have hc : c ≠ CodePoint.ofChar ':' := fun heq => h (by rw [heq, List.head?_cons])
        simp [hc]
  simp only [ofAtom, hnil, htrue, hfalse, if_false, List.head?_cons, if_true, hstrip]

theorem signedInt_natAbs (n : Int) : signedInt (decide (n < 0)) n.natAbs = n := by
  by_cases h : n < 0
  · simp only [signedInt, h, decide_true, if_true]
    omega
  · simp only [signedInt, h, decide_false, Bool.false_eq_true, if_false]
    omega

theorem ofAtom_ofInt {n : Int} (h : integerFits n = true) :
    ofAtom (Text.ofInt n) = .ok (.int n) := by
  rw [ofAtom_of_decimalLiteral? (decimalLiteral?_ofInt n),
    if_neg (Nat.not_lt.2 (length_digitsOf_le_iff.2 h)), foldDigits_digitsOf, signedInt_natAbs]

theorem integerFits_of_ofAtom {n : Int} {f : Form} (h : ofAtom (Text.ofInt n) = .ok f) :
    integerFits n = true := by
  rw [ofAtom_of_decimalLiteral? (decimalLiteral?_ofInt n)] at h
  split at h
  case isTrue => cases h
  case isFalse fits =>
    exact length_digitsOf_le_iff.1 (Nat.le_of_not_lt fits)

end Form

end Docsmith
