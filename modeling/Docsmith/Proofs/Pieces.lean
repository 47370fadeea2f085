import Docsmith.Form.ReadError
import Mathlib.Data.List.Find
import Mathlib.Data.List.TakeWhile

/-!
# Pieces of text

What a piece can be, by the code points that it begins with, said once for all proofs
about the cutting of text.  A line feed ends every piece that can be complete before it,
so texts joined by a line feed are cut apart from each other.
-/

namespace Docsmith

/-! ## Leads and runs before a code point that is not in them -/

namespace Text

theorem after?_append_cons {lead : Text} {x : CodePoint} (hx : x ∉ lead) (r u : Text) :
    after? lead (r ++ x :: u) = (after? lead r).map (· ++ x :: u) := by
  induction lead generalizing r with
  | nil => simp [after?]
  | cons a lead ih =>
      simp only [List.mem_cons, not_or] at hx
      cases r with
      | nil => simp [after?, Ne.symm hx.1]
      | cons c r =>
          by_cases hc : a = c
          · simp [after?, hc, ih hx.2]
          · simp [after?, hc]

theorem isPrefixOf_append_cons {lead : Text} {x : CodePoint} (hx : x ∉ lead) (r u : Text) :
    lead.isPrefixOf (r ++ x :: u) = lead.isPrefixOf r := by
  induction lead generalizing r with
  | nil => simp
  | cons a lead ih =>
      simp only [List.mem_cons, not_or] at hx
      cases r with
      | nil => simp [List.isPrefixOf, Ne.symm hx.1]
      | cons c r => simp [List.isPrefixOf, ih hx.2]

end Text

theorem takeWhile_append_cons {α : Type} {p : α → Bool} {x : α} (hx : p x = false) (l r : List α) :
    (l ++ x :: r).takeWhile p = l.takeWhile p := by
  induction l with
  | nil => simp [hx]
  | cons a l ih => cases ha : p a <;> simp [ha, ih]

theorem dropWhile_append_cons {α : Type} {p : α → Bool} {x : α} (hx : p x = false) (l r : List α) :
    (l ++ x :: r).dropWhile p = l.dropWhile p ++ x :: r := by
  induction l with
  | nil => simp [hx]
  | cons a l ih => cases ha : p a <;> simp [ha, ih]

theorem takeWhile_append_of_ne_nil {α : Type} {p : α → Bool} {l : List α}
    (h : l.dropWhile p ≠ []) (r : List α) : (l ++ r).takeWhile p = l.takeWhile p := by
  induction l with
  | nil => simp at h
  | cons a l ih =>
      cases ha : p a with
      | false => simp [ha]
      | true =>
          rw [List.dropWhile_cons_of_pos ha] at h
          simp [ha, ih h]

theorem dropWhile_append_of_ne_nil {α : Type} {p : α → Bool} {l : List α}
    (h : l.dropWhile p ≠ []) (r : List α) : (l ++ r).dropWhile p = l.dropWhile p ++ r := by
  rw [List.dropWhile_append, if_neg (by simpa using h)]

namespace Piece

/-! ## What a piece can be -/

def NoRegex (r : Text) : Prop := ∀ s, r = CodePoint.ofChar '"' :: s → quotedBody? s = none

inductive Begins : Text → Piece → Text → Prop
  | blank {c : CodePoint} (r : Text) (gap : c.isGap = true) :
      Begins (c :: r) (.blank ((c :: r).takeWhile CodePoint.isGap))
        ((c :: r).dropWhile CodePoint.isGap)
  | comment (r : Text) :
      Begins (CodePoint.ofChar ';' :: r) (.comment (r.takeWhile (· ≠ Text.newline)))
        (r.dropWhile (· ≠ Text.newline))
  | str {r body rest : Text} (quoted : quotedBody? r = some (body, rest)) :
      Begins (CodePoint.ofChar '"' :: r) (.lexeme (.str body)) rest
  | char {r : Text} (more : r ≠ []) :
      Begins (CodePoint.ofChar '\\' :: r) (.lexeme (.char (r.take (charLength r))))
        (r.drop (charLength r))
  | regex {r body rest : Text} (quoted : quotedBody? r = some (body, rest)) :
      Begins (CodePoint.ofChar '#' :: CodePoint.ofChar '"' :: r) (.lexeme (.regex body)) rest
  | signed {mark : Text} {l : Lexeme} (rest : Text) (known : (mark, l) ∈ signed) :
      Begins (CodePoint.ofChar '#' :: (mark ++ rest)) (.lexeme l) rest
  | signAtom {r : Text} (noRegex : NoRegex r) (unknown : ∀ e ∈ signed, Text.after? e.1 r = none) :
      Begins (CodePoint.ofChar '#' :: r)
        (.lexeme (.atom (CodePoint.ofChar '#' :: r.takeWhile CodePoint.isAtom)))
        (r.dropWhile CodePoint.isAtom)
  | splicing (r : Text) :
      Begins (CodePoint.ofChar '~' :: CodePoint.ofChar '@' :: r)
        (.lexeme (.quote .unquoteSplicing)) r
  | single {c : CodePoint} {l : Lexeme} {r : Text} (known : singles.get? c = some l)
      (alone : Text.after? "~@" (c :: r) = none) : Begins (c :: r) (.lexeme l) r
  | atom {c : CodePoint} (r : Text) (isAtom : c.isAtom = true) (notSign : c ≠ '#')
      (unknown : singles.get? c = none) :
      Begins (c :: r) (.lexeme (.atom (c :: r.takeWhile CodePoint.isAtom)))
        (r.dropWhile CodePoint.isAtom)

theorem noRegex_of_bind {r : Text} (h : (Text.after? "\"" r).bind quotedBody? = none) :
    NoRegex r := by
  rintro s rfl
  simpa [Text.after?, Text.ofString] using h

theorem atomPiece_cons {c : CodePoint} (h : c.isAtom = true) (r : Text) :
    atomPiece (c :: r) =
      (.lexeme (.atom (c :: r.takeWhile CodePoint.isAtom)), r.dropWhile CodePoint.isAtom) := by
  rw [atomPiece, List.takeWhile_cons_of_pos h, List.dropWhile_cons_of_pos h]

theorem begins_dispatch (r : Text) :
    Begins (CodePoint.ofChar '#' :: r) (dispatch r).1 (dispatch r).2 := by
  unfold dispatch
  split
  case h_1 body rest hq =>
    obtain ⟨s, hs, hq⟩ := Option.bind_eq_some_iff.1 hq
    rw [Text.eq_append_of_after? hs]
    exact .regex hq
  case h_2 hq =>
    split
    case h_1 l rest hs =>
      obtain ⟨e, he, hs⟩ := List.exists_of_findSome?_eq_some hs
      obtain ⟨u, hu, hs⟩ := Option.map_eq_some_iff.1 hs
      cases hs
      rw [Text.eq_append_of_after? hu]
      exact .signed rest he
    case h_2 hs =>
      rw [atomPiece_cons (by decide)]
      refine .signAtom (noRegex_of_bind hq) fun e he => ?_
      simpa using List.findSome?_eq_none_iff.1 hs e he

theorem begins_of_next? {t : Text} {p : Piece} {rest : Text} (h : next? t = some (p, rest)) :
    Begins t p rest := by
  unfold next? at h
  split at h
  case h_1 => simp at h
  case h_2 c r =>
    split at h
    case isTrue gap =>
      cases h
      exact .blank r gap
    case isFalse gap =>
      split at h
      case isTrue hc =>
        cases h
        exact hc ▸ .comment r
      case isFalse hc =>
        split at h
        case isTrue hq =>
          obtain ⟨⟨body, u⟩, hb, he⟩ := Option.map_eq_some_iff.1 h
          cases he
          exact hq ▸ .str hb
        case isFalse hq =>
          split at h
          case isTrue hb =>
            split at h
            case isTrue => cases h
            case isFalse hne =>
              cases h
              exact hb ▸ .char (by simpa using hne)
          case isFalse hb =>
            split at h
            case isTrue hn =>
              have hd := begins_dispatch r
              rw [Option.some.inj h] at hd
              exact hn ▸ hd
            case isFalse hn =>
              split at h
              case h_1 ha =>
                cases h
                rw [Text.eq_append_of_after? ha]
                exact .splicing rest
              case h_2 ha =>
                have alone := Option.eq_none_iff_forall_ne_some.2 ha
                split at h
                case h_1 known =>
                  cases h
                  exact .single known alone
                case h_2 hs =>
                  have unknown := Option.eq_none_iff_forall_ne_some.2 hs
                  have isAtom := isAtom_of_singles gap hc hq hb unknown
                  rw [atomPiece_cons isAtom] at h
                  cases h
                  exact .atom r isAtom hn unknown

theorem dispatch_signed {mark : Text} {l : Lexeme} (known : (mark, l) ∈ signed) (rest : Text) :
    dispatch (mark ++ rest) = (.lexeme l, rest) := by
  simp only [signed, List.mem_cons, Prod.mk.injEq, List.not_mem_nil, or_false] at known
  rcases known with ⟨rfl, rfl⟩ | ⟨rfl, rfl⟩ | ⟨rfl, rfl⟩ | ⟨rfl, rfl⟩ | ⟨rfl, rfl⟩ | ⟨rfl, rfl⟩ <;>
    rfl

theorem dispatch_atom {r : Text} (noRegex : NoRegex r)
    (unknown : ∀ e ∈ signed, Text.after? e.1 r = none) :
    dispatch r = (.lexeme (.atom (CodePoint.ofChar '#' :: r.takeWhile CodePoint.isAtom)),
      r.dropWhile CodePoint.isAtom) := by
  have hquoted : (Text.after? "\"" r).bind quotedBody? = none := by
    cases ha : Text.after? "\"" r with
    | none => rfl
    | some s => exact noRegex s (Text.eq_append_of_after? ha)
  unfold dispatch
  rw [hquoted]
  dsimp only
  rw [List.findSome?_eq_none_iff.2 fun e he => by simp [unknown e he]]
  exact atomPiece_cons (by decide) r

theorem next?_sign (r : Text) : next? (CodePoint.ofChar '#' :: r) = some (dispatch r) := by
  rw [next?, if_neg (by decide), if_neg (by decide), if_neg (by decide), if_neg (by decide),
    if_pos rfl]

theorem ne_of_singles : ∀ e ∈ singles,
    e.1.isGap = false ∧ e.1 ≠ CodePoint.ofChar ';' ∧ e.1 ≠ CodePoint.ofChar '"' ∧
      e.1 ≠ CodePoint.ofChar '\\' ∧ e.1 ≠ CodePoint.ofChar '#' := by
  decide

theorem ne_of_isAtom {c : CodePoint} (h : c.isAtom = true) :
    c.isGap = false ∧ c ≠ CodePoint.ofChar ';' ∧ c ≠ CodePoint.ofChar '"' ∧
      c ≠ CodePoint.ofChar '\\' := by
  simp only [CodePoint.isAtom, Bool.not_eq_true', Bool.or_eq_false_iff, decide_eq_false_iff_not]
    at h
  obtain ⟨⟨⟨⟨⟨⟨⟨⟨⟨hgap, hcomment⟩, -⟩, -⟩, -⟩, -⟩, -⟩, -⟩, hquote⟩, hback⟩ := h
  exact ⟨hgap, hcomment, hquote, hback⟩

theorem next?_of_begins {t : Text} {p : Piece} {rest : Text} (h : Begins t p rest) :
    next? t = some (p, rest) := by
  cases h with
  | blank r gap => simp [next?, gap]
  | comment r => rw [next?, if_neg (by decide), if_pos rfl]
  | str quoted =>
      rw [next?, if_neg (by decide), if_neg (by decide), if_pos rfl, quoted]
      rfl
  | char more =>
      rw [next?, if_neg (by decide), if_neg (by decide), if_neg (by decide), if_pos rfl,
        if_neg (by simpa using more)]
  | regex quoted =>
      rw [next?_sign]
      simp [dispatch, Text.after?, Text.ofString, quoted]
  | signed rest known => rw [next?_sign, dispatch_signed known]
  | signAtom noRegex unknown => rw [next?_sign, dispatch_atom noRegex unknown]
  | splicing r =>
      rw [next?, if_neg (by decide), if_neg (by decide), if_neg (by decide),
        if_neg (by decide), if_neg (by decide)]
      rfl
  | @single c l r known alone =>
      obtain ⟨e, he, -⟩ := Option.map_eq_some_iff.1 known
      have hc : e.1 = c := by simpa using List.find?_some he
      obtain ⟨hgap, hcomment, hquote, hback, hsign⟩ :=
        ne_of_singles e (List.mem_of_find?_eq_some he)
      rw [hc] at hgap hcomment hquote hback hsign
      simp [next?, hgap, hcomment, hquote, hback, hsign, alone, known]
  | @atom c r isAtom notSign unknown =>
      obtain ⟨hgap, hcomment, hquote, hback⟩ := ne_of_isAtom isAtom
      have alone : Text.after? "~@" (c :: r) = none := by
        have hc : CodePoint.ofChar '~' ≠ c := by
          rintro rfl
          revert unknown
          decide
        simp [Text.after?, Text.ofString, hc]
      simp [next?, hgap, hcomment, hquote, hback, notSign, alone, unknown, atomPiece_cons isAtom]

/-! ## The name of a character -/

theorem isAtom_of_alphanumeric {c : CodePoint}
    (h : 48 ≤ c.toNat ∧ c.toNat ≤ 57 ∨ 65 ≤ c.toNat ∧ c.toNat ≤ 90 ∨
      97 ≤ c.toNat ∧ c.toNat ≤ 122) : c.isAtom = true := by
  have hne (d : Char) (hd : d.toNat < 48 ∨ 57 < d.toNat ∧ d.toNat < 65 ∨
      90 < d.toNat ∧ d.toNat < 97 ∨ 122 < d.toNat) : c ≠ CodePoint.ofChar d := by
    rintro rfl
    change 48 ≤ d.toNat ∧ d.toNat ≤ 57 ∨ 65 ≤ d.toNat ∧ d.toNat ≤ 90 ∨
      97 ≤ d.toNat ∧ d.toNat ≤ 122 at h
    omega
  have hblank : c.isBlank = false := by
    simp only [CodePoint.isBlank, CodePoint.inRanges, blankRanges, List.any_eq_false,
      List.mem_cons, List.not_mem_nil, or_false, Bool.and_eq_true, decide_eq_true_eq]
    rintro r (rfl | rfl | rfl | rfl | rfl | rfl | rfl | rfl | rfl | rfl) <;> omega
  simp [CodePoint.isAtom, CodePoint.isGap, hblank, hne]

theorem isAtom_of_isOctalDigit {c : CodePoint} (h : c.isOctalDigit = true) : c.isAtom = true := by
  simp only [CodePoint.isOctalDigit, Bool.and_eq_true, decide_eq_true_eq] at h
  exact isAtom_of_alphanumeric (by omega)

theorem isAtom_of_isHexDigit {c : CodePoint} (h : c.isHexDigit = true) : c.isAtom = true := by
  apply isAtom_of_alphanumeric
  by_contra hrange
  have hdigit : c.isAsciiDigit = false := by
    simp only [CodePoint.isAsciiDigit, Bool.and_eq_false_iff, decide_eq_false_iff_not]
    omega
  have hlower : (decide (0x61 ≤ c.toNat) && decide (c.toNat ≤ 0x66)) = false := by
    simp only [Bool.and_eq_false_iff, decide_eq_false_iff_not]
    omega
  have hupper : (decide (0x41 ≤ c.toNat) && decide (c.toNat ≤ 0x46)) = false := by
    simp only [Bool.and_eq_false_iff, decide_eq_false_iff_not]
    omega
  simp [CodePoint.isHexDigit, CodePoint.hexValue?, hdigit, hlower, hupper] at h

theorem isAtom_of_mem_charNames : ∀ name ∈ charNames, ∀ c ∈ name, c.isAtom = true := by
  decide

theorem find?_charNames_append_cons {x : CodePoint} (hx : x.isAtom = false) (r u : Text) :
    charNames.find? (·.isPrefixOf (r ++ x :: u)) = charNames.find? (·.isPrefixOf r) := by
  refine List.find?_congr fun name hname => Text.isPrefixOf_append_cons ?_ r u
  intro hmem
  rw [isAtom_of_mem_charNames name hname x hmem] at hx
  cases hx

theorem fourHex_append_cons {x : CodePoint} (hx : x.isAtom = false) (r u : Text) :
    (4 ≤ (r ++ x :: u).length && ((r ++ x :: u).take 4).all CodePoint.isHexDigit) =
      (4 ≤ r.length && (r.take 4).all CodePoint.isHexDigit) := by
  by_cases hr : 4 ≤ r.length
  · rw [List.take_append_of_le_length hr]
    simp [hr]
    omega
  · have hmem : x ∈ (r ++ x :: u).take 4 := by
      rw [List.take_append]
      have : 4 - r.length = (3 - r.length) + 1 := by omega
      simp [this]
    have hnot : x.isHexDigit = false := Bool.eq_false_iff.2 fun hh => by
      rw [isAtom_of_isHexDigit hh] at hx
      cases hx
    have hall : ((r ++ x :: u).take 4).all CodePoint.isHexDigit = false :=
      List.all_eq_false.2 ⟨x, hmem, by simp [hnot]⟩
    rw [hall]
    simp [hr]

theorem octal_append_cons {x : CodePoint} (hx : x.isAtom = false) (r u : Text) :
    ((r ++ x :: u).take 3).takeWhile CodePoint.isOctalDigit =
      (r.take 3).takeWhile CodePoint.isOctalDigit := by
  by_cases hr : 3 ≤ r.length
  · rw [List.take_append_of_le_length hr]
  · have hnot : x.isOctalDigit = false := Bool.eq_false_iff.2 fun ho => by
      rw [isAtom_of_isOctalDigit ho] at hx
      cases hx
    have hlength : 3 - r.length = (2 - r.length) + 1 := by omega
    rw [List.take_append, List.take_of_length_le (by omega), hlength, List.take_succ_cons]
    exact takeWhile_append_cons hnot r _

theorem charLength_append_cons {x : CodePoint} (hx : x.isAtom = false) {r : Text} (hr : r ≠ [])
    (u : Text) : charLength (r ++ x :: u) = charLength r := by
  unfold charLength
  rw [find?_charNames_append_cons hx]
  cases charNames.find? (·.isPrefixOf r) with
  | some name => rfl
  | none =>
      cases r with
      | nil => exact absurd rfl hr
      | cons c r =>
          simp only [List.cons_append, Bool.and_assoc, fourHex_append_cons hx,
            octal_append_cons hx]

theorem charLength_le (r : Text) : charLength r ≤ r.length := by
  unfold charLength
  split
  case h_1 name hname =>
    have hprefix : name.isPrefixOf r = true := by simpa using List.find?_some hname
    exact (List.isPrefixOf_iff_prefix.1 hprefix).length_le
  case h_2 =>
    cases r with
    | nil => simp
    | cons c r =>
        have hoctal : ((r.take 3).takeWhile CodePoint.isOctalDigit).length ≤ r.length :=
          ((List.takeWhile_prefix _).length_le).trans (List.length_take_le' 3 r)
        simp only [List.length_cons]
        split
        case isTrue hhex =>
          simp only [Bool.and_eq_true, decide_eq_true_eq] at hhex
          omega
        case isFalse => split <;> omega

/-! ## A line feed ends a piece -/

theorem quotedBody?_quote (r : Text) : quotedBody? (CodePoint.ofChar '"' :: r) = some ([], r) := by
  rw [quotedBody?.eq_def]
  rfl

theorem quotedBody?_escape (d : CodePoint) (s : Text) :
    quotedBody? (CodePoint.ofChar '\\' :: d :: s) =
      (quotedBody? s).map fun (body, rest) => (CodePoint.ofChar '\\' :: d :: body, rest) := by
  rw [quotedBody?.eq_def]
  rfl

theorem quotedBody?_plain {c : CodePoint} (hq : c ≠ '"') (hback : c ≠ '\\') (r : Text) :
    quotedBody? (c :: r) = (quotedBody? r).map fun (body, rest) => (c :: body, rest) := by
  rw [quotedBody?.eq_def]
  simp [hq, hback]

theorem quotedBody?_append_text {t body rest : Text} (h : quotedBody? t = some (body, rest))
    (u : Text) : quotedBody? (t ++ u) = some (body, rest ++ u) := by
  fun_induction quotedBody? t generalizing body rest with
  | case1 => simp at h
  | case2 r =>
      cases h
      rw [List.cons_append, quotedBody?_quote]
  | case3 => simp at h
  | case4 d s hq ih =>
      obtain ⟨⟨b, v⟩, hb, he⟩ := Option.map_eq_some_iff.1 h
      cases he
      rw [List.cons_append, List.cons_append, quotedBody?_escape, ih hb]
      rfl
  | case5 c r hq hback ih =>
      obtain ⟨⟨b, v⟩, hb, he⟩ := Option.map_eq_some_iff.1 h
      cases he
      rw [List.cons_append, quotedBody?_plain hq hback, ih hb]
      rfl

theorem newline_not_mem_signed : ∀ e ∈ signed, Text.newline ∉ e.1 := by
  decide

theorem next?_unclosed {s : Text} (h : quotedBody? s = none) :
    next? (CodePoint.ofChar '"' :: s) = none := by
  rw [next?, if_neg (by decide), if_neg (by decide), if_pos rfl, h]
  rfl

/-- What follows a number sign that is an atom by itself cannot become a regex literal by
what is appended: then it would be a string that is not closed. -/
theorem noRegex_append_newline {r : Text} (h : NoRegex r)
    (hrest : r.dropWhile CodePoint.isAtom = [] ∨ (next? (r.dropWhile CodePoint.isAtom)).isSome)
    (u : Text) : NoRegex (r ++ Text.newline :: u) := by
  intro s hs
  cases r with
  | nil =>
      injection hs with hs
      exact absurd hs (by decide)
  | cons c r =>
      injection hs with hc _
      subst hc
      have hquote : ¬(CodePoint.ofChar '"').isAtom = true := by decide
      rw [List.dropWhile_cons_of_neg hquote, next?_unclosed (h r rfl)] at hrest
      simp at hrest

theorem begins_append_newline {t : Text} {p : Piece} {rest : Text} (h : Begins t p rest)
    (hrest : rest = [] ∨ (next? rest).isSome) (hblank : rest = [] → ∀ run, p ≠ .blank run)
    (u : Text) : Begins (t ++ Text.newline :: u) p (rest ++ Text.newline :: u) := by
  have hatom : Text.newline.isAtom = false := by decide
  cases h with
  | @blank c r gap =>
      have hne : (c :: r).dropWhile CodePoint.isGap ≠ [] := fun h => hblank h _ rfl
      rw [← dropWhile_append_of_ne_nil hne, ← takeWhile_append_of_ne_nil hne (Text.newline :: u)]
      exact .blank _ gap
  | comment r =>
      let p : CodePoint → Bool := fun c => decide (c ≠ Text.newline)
      have hline : p Text.newline = false := by decide
      have htake : (r ++ Text.newline :: u).takeWhile p = r.takeWhile p :=
        takeWhile_append_cons hline r u
      have hdrop : (r ++ Text.newline :: u).dropWhile p = r.dropWhile p ++ Text.newline :: u :=
        dropWhile_append_cons hline r u
      change Begins _ (.comment (r.takeWhile p)) (r.dropWhile p ++ Text.newline :: u)
      rw [← htake, ← hdrop]
      exact .comment _
  | str quoted => exact .str (quotedBody?_append_text quoted _)
  | @char r more =>
      have hlength := charLength_append_cons hatom more u
      have htake : (r ++ Text.newline :: u).take (charLength r) = r.take (charLength r) :=
        List.take_append_of_le_length (charLength_le r)
      rw [List.cons_append, ← List.drop_append_of_le_length (charLength_le r), ← htake, ← hlength]
      exact .char (by simp)
  | regex quoted => exact .regex (quotedBody?_append_text quoted _)
  | signed rest known =>
      rw [List.cons_append, List.append_assoc]
      exact .signed _ known
  | @signAtom r noRegex unknown =>
      rw [List.cons_append, ← dropWhile_append_cons hatom, ← takeWhile_append_cons hatom r u]
      refine .signAtom (noRegex_append_newline noRegex hrest u) fun e he => ?_
      rw [Text.after?_append_cons (newline_not_mem_signed e he), unknown e he]
      rfl
  | splicing r => exact .splicing _
  | @single c l r known alone =>
      have happend := Text.after?_append_cons (show Text.newline ∉ Text.ofString "~@" by decide)
        (c :: rest) u
      rw [alone] at happend
      exact .single known happend
  | atom r isAtom notSign unknown =>
      rw [List.cons_append, ← dropWhile_append_cons hatom, ← takeWhile_append_cons hatom r u]
      exact .atom _ isAtom notSign unknown

/-! ## Cutting off pieces one by one -/

inductive Cuts : Text → List Piece → Text → Prop
  | done (t : Text) : Cuts t [] t
  | piece {t rest last : Text} {p : Piece} {ps : List Piece} (first : next? t = some (p, rest))
      (more : Cuts rest ps last) : Cuts t (p :: ps) last

theorem all_of_next?_eq_none {t : Text} (h : next? t = none) : all t = ([], t) := by
  rw [all]
  split
  · rfl
  · simp_all

theorem all_of_next?_eq_some {t rest : Text} {p : Piece} (h : next? t = some (p, rest)) :
    all t = (p :: (all rest).1, (all rest).2) := by
  rw [all]
  split
  case h_1 => simp_all
  case h_2 q r hq =>
    rw [h] at hq
    cases hq
    rfl

theorem cuts_all (t : Text) : Cuts t (all t).1 (all t).2 := by
  induction hn : t.length using Nat.strong_induction_on generalizing t with
  | _ n ih =>
      cases h : next? t with
      | none =>
          rw [all_of_next?_eq_none h]
          exact .done t
      | some e =>
          obtain ⟨p, rest⟩ := e
          rw [all_of_next?_eq_some h]
          exact .piece h (ih rest.length (hn ▸ length_lt_of_next? h) rest rfl)

theorem all_of_cuts {t last : Text} {ps : List Piece} (h : Cuts t ps last) :
    all t = (ps ++ (all last).1, (all last).2) := by
  induction h with
  | done t => rfl
  | piece first _ ih =>
      rw [all_of_next?_eq_some first, ih]
      rfl

theorem all_of_cuts_nil {t : Text} {ps : List Piece} (h : Cuts t ps []) : all t = (ps, []) := by
  have hend : all [] = ([], []) := all_of_next?_eq_none rfl
  rw [all_of_cuts h, hend, List.append_nil]

theorem Cuts.append {t mid last : Text} {ps qs : List Piece} (h : Cuts t ps mid)
    (hq : Cuts mid qs last) : Cuts t (ps ++ qs) last := by
  induction h with
  | done t => exact hq
  | piece first _ ih => exact .piece first (ih hq)

theorem Cuts.text_append {t last : Text} {ps : List Piece} (h : Cuts t ps last) :
    ps.flatMap text ++ last = t := by
  induction h with
  | done t => rfl
  | piece first _ ih =>
      rw [List.flatMap_cons, List.append_assoc, ih]
      exact text_append_of_next? first

end Piece

namespace Token

theorem tokenize_of_cuts {t : Text} {ps : List Piece} (h : Piece.Cuts t ps []) :
    tokenize t = .ok (ofPieces 1 ps) := by
  rw [tokenize, Piece.all_of_cuts_nil h]

/-- The tokens of a text whose first line has a number, and the rest where no piece
begins. -/
def scan (line : Nat) (t : Text) : List Token × Text :=
  (ofPieces line (Piece.all t).1, (Piece.all t).2)

theorem scan_of_next?_eq_none {t : Text} (h : Piece.next? t = none) (line : Nat) :
    scan line t = ([], t) := by
  rw [scan, Piece.all_of_next?_eq_none h]
  rfl

theorem scan_lexeme {t rest : Text} {l : Lexeme} (h : Piece.next? t = some (.lexeme l, rest))
    (line : Nat) :
    scan line t =
      (⟨l, line⟩ :: (scan (line + l.text.countNewlines) rest).1,
        (scan (line + l.text.countNewlines) rest).2) := by
  rw [scan, Piece.all_of_next?_eq_some h]
  rfl

theorem scan_skip {t rest : Text} {p : Piece} (h : Piece.next? t = some (p, rest))
    (hp : ∀ l, p ≠ .lexeme l) (line : Nat) :
    scan line t = scan (line + p.text.countNewlines) rest := by
  rw [scan, Piece.all_of_next?_eq_some h]
  cases p with
  | lexeme l => exact absurd rfl (hp l)
  | _ => rfl

theorem scan_dropGap (line : Nat) (t : Text) :
    scan line t =
      scan (line + Text.countNewlines (t.takeWhile CodePoint.isGap))
        (t.dropWhile CodePoint.isGap) := by
  cases t with
  | nil => rfl
  | cons c r =>
      cases hc : c.isGap with
      | true => exact scan_skip (Piece.next?_of_begins (.blank r hc)) nofun line
      | false => simp [hc, Text.countNewlines]

theorem scan_gap_append {g : Text} (hg : ∀ c ∈ g, c.isGap = true) (line : Nat) (u : Text) :
    scan line (g ++ u) = scan (line + g.countNewlines) u := by
  rw [scan_dropGap line, scan_dropGap _ u, List.takeWhile_append_of_pos hg,
    List.dropWhile_append_of_pos hg]
  simp [Text.countNewlines, Nat.add_assoc]

theorem scan_gap_newline {g : Text} (hg : ∀ c ∈ g, c.isGap = true) (line : Nat) (u : Text) :
    scan line (g ++ Text.newline :: u) = scan (line + g.countNewlines + 1) u := by
  have hgap : ∀ c ∈ g ++ [Text.newline], c.isGap = true := by
    intro c hc
    rcases List.mem_append.1 hc with hc | hc
    · exact hg c hc
    · obtain rfl := List.mem_singleton.1 hc
      decide
  have hskip := scan_gap_append hgap line u
  rw [List.append_assoc] at hskip
  rw [← List.singleton_append, hskip]
  simp [Text.countNewlines, Nat.add_assoc]

theorem scan_nil (line : Nat) : scan line [] = ([], []) :=
  scan_of_next?_eq_none rfl line

theorem scan_append_newline {t last : Text} {ps : List Piece} (h : Piece.Cuts t ps last)
    (hlast : last = []) (line : Nat) (u : Text) :
    scan line (t ++ Text.newline :: u) =
      ((scan line t).1 ++ (scan (line + t.countNewlines + 1) u).1,
        (scan (line + t.countNewlines + 1) u).2) := by
  induction h generalizing line with
  | done t =>
      subst hlast
      rw [scan_nil]
      exact scan_gap_newline (g := []) (by simp) line u
  | @piece t rest last p ps first more ih =>
      have hcount : t.countNewlines = p.text.countNewlines + rest.countNewlines := by
        rw [← Piece.text_append_of_next? first]
        exact List.countP_append
      by_cases hend : rest = [] ∧ ∃ run, p = .blank run
      · obtain ⟨rfl, run, rfl⟩ := hend
        have hskip : scan line t = ([], []) := by
          rw [scan_skip first (by simp), scan_nil]
        have hgap : ∀ c ∈ t, c.isGap = true := by
          generalize hr : ([] : Text) = rest at first
          cases Piece.begins_of_next? first with
          | blank r gap => exact List.dropWhile_eq_nil_iff.1 hr.symm
        rw [hskip, scan_gap_newline hgap line u]
        rfl
      · have hrest : rest = [] ∨ (Piece.next? rest).isSome := by
          cases more with
          | done => exact .inl hlast
          | piece next _ => exact .inr (by simp [next])
        have hblank : rest = [] → ∀ run, p ≠ .blank run :=
          fun hr run hp => hend ⟨hr, run, hp⟩
        have hfirst := Piece.next?_of_begins
          (Piece.begins_append_newline (Piece.begins_of_next? first) hrest hblank u)
        have htail := ih hlast (line + p.text.countNewlines)
        rw [hcount, ← Nat.add_assoc]
        cases p with
        | lexeme l =>
            rw [scan_lexeme hfirst, scan_lexeme first]
            simp only [Piece.text] at htail ⊢
            rw [htail]
            rfl
        | _ => rw [scan_skip hfirst (by simp), scan_skip first (by simp), htail]

end Token

end Docsmith
