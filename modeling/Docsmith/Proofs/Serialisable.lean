import Docsmith.Proofs.Pages
import Docsmith.Proofs.Readings
import Docsmith.Proofs.Stages
import Mathlib.Data.List.TakeWhile

/-!
# What the data file can hold

A value can be written as data unless a dictionary in it has keys of several kinds, a key that
is no text, number, truth value or null, or an integer that is too long.  The fields that are
read from sources are texts, so that whether a run can be written as data depends on its
metadata alone.
-/

namespace Docsmith

/-! ## Texts that can be encoded -/

namespace Text

def Encodable (t : Text) : Prop := ∀ c ∈ t, c.isSurrogate = false

theorem Encodable.append {s t : Text} (hs : s.Encodable) (ht : t.Encodable) :
    (s ++ t).Encodable :=
  List.forall_mem_append.2 ⟨hs, ht⟩

theorem Encodable.cons {c : CodePoint} {t : Text} (hc : c.isSurrogate = false)
    (ht : t.Encodable) : Encodable (c :: t) :=
  List.forall_mem_cons.2 ⟨hc, ht⟩

theorem Encodable.subset {s t : Text} (h : s ⊆ t) (ht : t.Encodable) : s.Encodable :=
  fun c hc => ht c (h hc)

theorem isSurrogate_ofChar (c : Char) : (CodePoint.ofChar c).isSurrogate = false := by
  have hvalid : c.toNat < 0xD800 ∨ 0xDFFF < c.toNat := c.valid.imp id And.left
  rw [CodePoint.isSurrogate, CodePoint.ofChar, Bool.and_eq_false_iff, decide_eq_false_iff_not,
    decide_eq_false_iff_not]
  dsimp only
  omega

theorem encodable_map (cs : List Char) : Encodable (cs.map CodePoint.ofChar) := by
  intro c hc
  obtain ⟨d, -, rfl⟩ := List.mem_map.1 hc
  exact isSurrogate_ofChar d

theorem encodable_ofString (s : String) : Encodable (ofString s) := encodable_map _

theorem encodable_repeated (n : Nat) (c : Char) : Encodable (repeated n c) := by
  intro d hd
  obtain rfl := List.eq_of_mem_replicate hd
  exact isSurrogate_ofChar c

theorem encodable_ofInt (n : Int) : Encodable (ofInt n) := by
  cases n with
  | ofNat k => exact encodable_ofString _
  | negSucc k => exact .cons (isSurrogate_ofChar '-') (encodable_ofString _)

theorem Encodable.join {sep : Text} {ts : List Text} (hsep : sep.Encodable)
    (h : ∀ t ∈ ts, t.Encodable) : (join sep ts).Encodable := by
  induction ts with
  | nil => nofun
  | cons t ts ih =>
      obtain ⟨ht, hts⟩ := List.forall_mem_cons.1 h
      cases ts with
      | nil => exact ht
      | cons u ts => exact (ht.append hsep).append (ih hts)

theorem Encodable.exists_encode {t : Text} (h : t.Encodable) :
    ∃ bytes, Utf8.encode t = .ok bytes := by
  have hall : t.dropWhile (!·.isSurrogate) = [] := by
    rw [List.dropWhile_eq_nil_iff]
    intro c hc
    rw [h c hc]
    rfl
  exact ⟨_, by rw [Utf8.encode, hall]⟩

end Text

open Text

theorem Binary64.encodable_digitsText (n : Nat) (place : Int) (style : Style) :
    Encodable (digitsText n place style) := by
  have hdigits : Encodable (Text.ofNat n) := encodable_ofString _
  unfold digitsText
  extract_lets digits count point power fraction sign
  have htake (k : Nat) : Encodable (digits.take k) := hdigits.subset (List.take_subset k _)
  have hdrop (k : Nat) : Encodable (digits.drop k) := hdigits.subset (List.drop_subset k _)
  have hzeros (k : Nat) := encodable_repeated k '0'
  split
  · split
    · exact ((encodable_ofString _).append (hzeros _)).append hdigits
    split
    · exact ((htake _).append (encodable_ofString _)).append (hdrop _)
    · exact (hdigits.append (hzeros _)).append (encodable_ofString _)
  · have hfraction : Encodable fraction := by
      unfold fraction
      split
      · nofun
      · exact .cons (isSurrogate_ofChar '.') (hdrop 1)
    have hsign : Encodable sign := by
      unfold sign
      split <;> exact encodable_ofString _
    exact ((((htake 1).append hfraction).append (encodable_ofString _)).append hsign).append
      ((hzeros _).append (encodable_ofString _))

theorem Binary64.encodable_text (x : Binary64) : Encodable (x.text dataStyle) := by
  have hsign (negative : Bool) : Encodable (if negative then "-" else "" : Text) := by
    cases negative <;> exact encodable_ofString _
  cases x with
  | nan => exact encodable_ofString _
  | infinite negative => exact (hsign negative).append (encodable_ofString _)
  | finite negative mantissa exponent =>
      unfold text
      dsimp only
      split
      · exact (hsign negative).append (encodable_ofString _)
      · exact (hsign negative).append (encodable_digitsText _ _ _)

namespace Value

/-! ## Values as data -/

def keysAlike (d : Dict) : Bool :=
  d.length ≤ 1 || d.all (fun e => e.1.isString) || d.all (fun e => e.1.isNumber)

def keyFits : Value → Bool
  | .str _ | .null | .bool _ | .float _ => true
  | .int n => Form.integerFits n
  | _ => false

mutual
def serialisable : Value → Bool
  | .list items | .tuple items => serialisableItems items
  | .dict entries => keysAlike entries && serialisableEntries entries
  | v => v.writable

def serialisableItems : List Value → Bool
  | [] => true
  | v :: vs => serialisable v && serialisableItems vs

def serialisableEntries : List (Value × Value) → Bool
  | [] => true
  | (k, v) :: r => keyFits k && serialisable v && serialisableEntries r
end

theorem serialisableItems_iff {items : List Value} :
    serialisableItems items = true ↔ ∀ v ∈ items, v.serialisable = true := by
  induction items with
  | nil => simp [serialisableItems]
  | cons v items ih => simp [serialisableItems, ih]

theorem serialisableEntries_iff {entries : Dict} :
    serialisableEntries entries = true ↔
      ∀ e ∈ entries, e.1.keyFits = true ∧ e.2.serialisable = true := by
  induction entries with
  | nil => simp [serialisableEntries]
  | cons e entries ih => simp [serialisableEntries, ih]

theorem Textual.serialisable {v : Value} (h : v.Textual) : v.serialisable = true := by
  obtain ⟨_ | t, rfl⟩ := h <;> rfl

theorem serialisable_texts (ts : List Text) : (Value.list (ts.map .str)).serialisable = true := by
  rw [Value.serialisable, serialisableItems_iff]
  intro v hv
  obtain ⟨t, -, rfl⟩ := List.mem_map.1 hv
  rfl

theorem serialisable_record {fields : List (Text × Value)} :
    (Writer.record fields).serialisable = true ↔ ∀ f ∈ fields, f.2.serialisable = true := by
  have halike : keysAlike (fields.map fun f => (Value.str f.1, f.2)) = true := by
    simp [keysAlike, isString]
  rw [Writer.record, Value.serialisable, halike, Bool.true_and, serialisableEntries_iff,
    List.forall_mem_map]
  exact forall₂_congr fun f _ => and_iff_right rfl

/-! ### Writing -/

theorem exists_jsonInt_iff {n : Int} :
    (∃ t, jsonInt n = .ok t) ↔ Form.integerFits n = true := by
  unfold jsonInt
  split <;> simp_all

theorem exists_jsonKey_iff {v : Value} : (∃ t, jsonKey v = .ok t) ↔ v.keyFits = true := by
  cases v with
  | int n =>
      rw [keyFits, ← exists_jsonInt_iff, jsonKey]
      constructor
      · rintro ⟨t, ht⟩
        obtain ⟨digits, hdigits, -⟩ := exists_of_map_eq_ok ht
        exact ⟨digits, hdigits⟩
      · rintro ⟨digits, hdigits⟩
        exact ⟨_, by rw [hdigits]; rfl⟩
  | bool b => cases b <;> simp [jsonKey, keyFits]
  | _ => simp [jsonKey, keyFits]

theorem exists_jsonAtom_iff {v : Value} (h : v.depth = 0) :
    (∃ t, jsonAtom v = .ok t) ↔ v.serialisable = true := by
  cases v with
  | int n => exact exists_jsonInt_iff
  | bool b => cases b <;> simp [jsonAtom, Value.serialisable, writable]
  | list items | tuple items | dict entries => simp [depth] at h
  | set items | known v =>
      simp only [jsonAtom, Value.serialisable]
      split <;> simp_all
  | _ => simp [jsonAtom, Value.serialisable, writable]

theorem depth_le_of_mem_items {items : List Value} {v : Value} (h : v ∈ items) :
    v.depth ≤ depth.depthItems items := by
  induction items with
  | nil => cases h
  | cons u items ih =>
      rw [depth.depthItems]
      rcases List.mem_cons.1 h with rfl | h
      · exact Nat.le_max_left _ _
      · exact Nat.le_trans (ih h) (Nat.le_max_right _ _)

theorem depth_lt_of_mem_entries {entries : Dict} {e : Value × Value} (h : e ∈ entries) :
    e.2.depth < (Value.dict entries).depth := by
  rw [depth.eq_def (.dict entries)]
  refine Nat.lt_succ_of_le ?_
  induction entries with
  | nil => cases h
  | cons u entries ih =>
      rw [depth.depthEntries]
      rcases List.mem_cons.1 h with rfl | h
      · exact Nat.le_max_left _ _
      · exact Nat.le_trans (ih h) (Nat.le_max_right _ _)

theorem exists_entry_iff {write : Value → Except Failure Text} {e : Value × Value} :
    (∃ t, (do
      let k ← jsonKey e.1
      return k ++ Text.ofString ": " ++ (← write e.2) : Except Failure Text) = .ok t) ↔
      e.1.keyFits = true ∧ ∃ t, write e.2 = .ok t := by
  rw [← exists_jsonKey_iff]
  constructor
  · rintro ⟨t, ht⟩
    obtain ⟨k, hk, ht⟩ := exists_of_bind_eq_ok ht
    obtain ⟨value, hvalue, -⟩ := exists_of_bind_eq_ok ht
    exact ⟨⟨k, hk⟩, value, hvalue⟩
  · rintro ⟨⟨k, hk⟩, value, hvalue⟩
    exact ⟨_, by rw [hk, hvalue]; rfl⟩

theorem exists_map_eq_ok_iff {ε α β : Type} {x : Except ε α} {f : α → β} :
    (∃ b, (x >>= fun a => pure (f a)) = .ok b) ↔ ∃ a, x = .ok a := by
  cases x with
  | error e => simp [bind, Except.bind]
  | ok a => simp [bind, Except.bind, pure, Except.pure]

/-- Written to a sufficient depth, a value is refused just if it is not serialisable. -/
theorem exists_jsonWithin_iff {fuel : Nat} (level : Nat) {v : Value} (h : v.depth < fuel) :
    (∃ t, jsonWithin fuel level v = .ok t) ↔ v.serialisable = true := by
  induction fuel generalizing level v with
  | zero => cases h
  | succ fuel ih =>
      cases v with
      | list items | tuple items =>
          rw [depth] at h
          have hitem (v : Value) (hv : v ∈ items) :=
            ih (level + 1) (Nat.lt_of_le_of_lt (depth_le_of_mem_items hv) (Nat.lt_of_succ_lt_succ h))
          rw [jsonWithin, exists_map_eq_ok_iff, exists_mapM_eq_ok_iff, Value.serialisable,
            serialisableItems_iff]
          exact forall₂_congr hitem
      | dict entries =>
          have hentry (e : Value × Value) (he : e ∈ entries) :=
            ih (level + 1) (Nat.lt_of_lt_of_le (depth_lt_of_mem_entries he) (Nat.le_of_lt_succ h))
          rw [jsonWithin, Value.serialisable, Bool.and_eq_true, serialisableEntries_iff]
          unfold sortEntries
          rw [← keysAlike]
          split
          case isTrue halike =>
            change (∃ t, (List.mapM _ _ >>= _) = Except.ok t) ↔ _
            rw [exists_map_eq_ok_iff, exists_mapM_eq_ok_iff, and_iff_right halike]
            simp only [exists_entry_iff, List.mem_mergeSort]
            exact forall₂_congr fun e he => and_congr_right fun _ => hentry e he
          case isFalse halike => simp [halike, bind, Except.bind]
      | _ => exact exists_jsonAtom_iff (by simp [depth])

theorem exists_json_iff {v : Value} : (∃ t, v.json = .ok t) ↔ v.serialisable = true :=
  exists_jsonWithin_iff 0 (Nat.lt_succ_self _)

/-! ### What is written can be encoded -/

theorem encodable_jsonUnit (n : Nat) : Encodable (jsonUnit n) :=
  (encodable_ofString _).append ((encodable_repeated _ '0').append (encodable_map _))

theorem encodable_jsonChar (c : CodePoint) : Encodable (jsonChar c) := by
  unfold jsonChar
  split
  case h_1 letter hletter =>
    obtain ⟨before, after, hescapes, -⟩ := List.lookup_eq_some_iff.1 hletter
    have hall : ∀ e ∈ jsonEscapes, e.2.isSurrogate = false := by decide
    have hmem := hescapes ▸ List.mem_append_right before List.mem_cons_self
    exact .cons (isSurrogate_ofChar _) (.cons (hall _ hmem) nofun)
  case h_2 =>
    split
    case isTrue hplain =>
      refine .cons ?_ nofun
      simp only [Bool.and_eq_true, decide_eq_true_eq] at hplain
      simp only [CodePoint.isSurrogate, Bool.and_eq_false_iff, decide_eq_false_iff_not]
      omega
    case isFalse =>
      split
      · exact encodable_jsonUnit _
      · exact (encodable_jsonUnit _).append (encodable_jsonUnit _)

theorem encodable_jsonText (t : Text) : Encodable (jsonText t) := by
  refine ((encodable_ofString _).append fun c hc => ?_).append (encodable_ofString _)
  obtain ⟨d, -, hd⟩ := List.mem_flatMap.1 hc
  exact encodable_jsonChar d c hd

theorem encodable_of_jsonInt {n : Int} {t : Text} (h : jsonInt n = .ok t) : t.Encodable := by
  unfold jsonInt at h
  split at h
  · cases h
    exact encodable_ofInt n
  · cases h

theorem encodable_of_jsonKey {v : Value} {t : Text} (h : jsonKey v = .ok t) : t.Encodable := by
  unfold jsonKey at h
  split at h
  · cases h
    exact encodable_jsonText _
  · cases h
    exact encodable_ofString _
  · cases h
    exact encodable_ofString _
  · cases h
    exact encodable_ofString _
  · obtain ⟨digits, hdigits, rfl⟩ := exists_of_map_eq_ok h
    exact ((encodable_ofString _).append (encodable_of_jsonInt hdigits)).append
      (encodable_ofString _)
  · cases h
    exact ((encodable_ofString _).append (Binary64.encodable_text _)).append
      (encodable_ofString _)
  · cases h

theorem encodable_of_jsonAtom {v : Value} {t : Text} (h : jsonAtom v = .ok t) :
    t.Encodable := by
  unfold jsonAtom at h
  split at h
  · cases h
    exact encodable_ofString _
  · cases h
    exact encodable_ofString _
  · cases h
    exact encodable_ofString _
  · exact encodable_of_jsonInt h
  · cases h
    exact Binary64.encodable_text _
  · cases h
    exact encodable_jsonText _
  · split at h
    · cases h
      exact encodable_jsonText _
    · cases h

theorem encodable_jsonBlock {opener closer : Text} {parts : List Text}
    (hopener : opener.Encodable) (hcloser : closer.Encodable)
    (h : ∀ t ∈ parts, t.Encodable) (level : Nat) :
    Encodable (jsonBlock opener closer level parts) := by
  have hbreak (level : Nat) : Encodable (jsonBreak level) :=
    .cons (isSurrogate_ofChar _) (encodable_repeated _ ' ')
  unfold jsonBlock
  split
  · exact hopener.append hcloser
  · have hparts := Encodable.join ((encodable_ofString ",").append (hbreak (level + 1))) h
    exact (((hopener.append (hbreak _)).append hparts).append (hbreak _)).append hcloser

theorem encodable_of_mapM {α : Type} {f : α → Except Failure Text} {as : List α}
    {ts : List Text} (h : as.mapM f = .ok ts) (hf : ∀ a t, f a = .ok t → t.Encodable) :
    ∀ t ∈ ts, t.Encodable := by
  have hall := forall₂_of_mapM_eq_ok h
  clear h
  induction hall with
  | nil => nofun
  | cons ha _ ih => exact List.forall_mem_cons.2 ⟨hf _ _ ha, ih⟩

theorem encodable_of_jsonWithin {fuel level : Nat} {v : Value} {t : Text}
    (h : jsonWithin fuel level v = .ok t) : t.Encodable := by
  induction fuel generalizing level v t with
  | zero =>
      unfold jsonWithin at h
      exact encodable_of_jsonAtom h
  | succ fuel ih =>
      cases v with
      | list items | tuple items =>
          obtain ⟨parts, hparts, h⟩ := exists_of_bind_eq_ok h
          cases h
          exact encodable_jsonBlock (encodable_ofString _) (encodable_ofString _)
            (encodable_of_mapM hparts fun _ _ => ih) level
      | dict entries =>
          obtain ⟨sorted, -, h⟩ := exists_of_bind_eq_ok h
          obtain ⟨parts, hparts, h⟩ := exists_of_bind_eq_ok h
          cases h
          refine encodable_jsonBlock (encodable_ofString _) (encodable_ofString _)
            (encodable_of_mapM hparts fun e t he => ?_) level
          obtain ⟨k, hk, he⟩ := exists_of_bind_eq_ok he
          obtain ⟨value, hvalue, he⟩ := exists_of_bind_eq_ok he
          cases he
          exact ((encodable_of_jsonKey hk).append (encodable_ofString _)).append (ih hvalue)
      | _ => exact encodable_of_jsonAtom h

end Value

end Docsmith
