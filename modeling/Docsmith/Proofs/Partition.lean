import Docsmith.Proofs.Backslashes
import Docsmith.Proofs.Positions

/-!
# Pieces make up the text

Every text is cut into pieces without gaps between them, up to its end or up to a place where
no piece begins.  There is such a place only where a string is not closed and where a backslash
ends the text.  A token has the line of the place where its piece begins.
-/

namespace Docsmith

/-! ## Quotation marks that are not escaped -/

namespace Text

/-- Some quotation mark is not escaped: the backslashes in front of it escape each other. -/
def HasBareQuote (t : Text) : Prop :=
  ∃ before after, t = before ++ CodePoint.ofChar '"' :: after ∧ Even before.backslashes

theorem hasBareQuote_quote (r : Text) : HasBareQuote (CodePoint.ofChar '"' :: r) :=
  ⟨[], r, rfl, ⟨0, rfl⟩⟩

theorem not_hasBareQuote_nil : ¬HasBareQuote [] := by
  rintro ⟨before, after, h, -⟩
  simp at h

theorem hasBareQuote_plain {c : CodePoint} (hquote : c ≠ '"') (hback : c ≠ '\\') (r : Text) :
    HasBareQuote (c :: r) ↔ HasBareQuote r := by
  constructor
  · rintro ⟨before, after, h, even⟩
    cases before with
    | nil => exact absurd (List.cons.inj h).1 hquote
    | cons a before =>
        obtain ⟨rfl, rfl⟩ := List.cons.inj h
        exact ⟨before, after, rfl, backslashes_plain hback before ▸ even⟩
  · rintro ⟨before, after, rfl, even⟩
    exact ⟨c :: before, after, rfl, (backslashes_plain hback before).symm ▸ even⟩

theorem not_hasBareQuote_backslash : ¬HasBareQuote [CodePoint.ofChar '\\'] := by
  rintro ⟨before, after, h, -⟩
  have hmem : CodePoint.ofChar '"' ∈ [CodePoint.ofChar '\\'] := by
    rw [h]
    exact List.mem_append_right before List.mem_cons_self
  exact absurd hmem (by decide)

theorem hasBareQuote_escape (d : CodePoint) (r : Text) :
    HasBareQuote (CodePoint.ofChar '\\' :: d :: r) ↔ HasBareQuote r := by
  constructor
  · rintro ⟨before, after, h, even⟩
    match before with
    | [] => exact absurd (List.cons.inj h).1 (by decide)
    | [a] =>
        obtain ⟨rfl, -⟩ := List.cons.inj h
        exact absurd even (by decide)
    | a :: b :: before =>
        obtain ⟨rfl, htail⟩ := List.cons.inj h
        obtain ⟨rfl, rfl⟩ := List.cons.inj htail
        exact ⟨before, after, rfl, (even_backslashes_escape _ _).1 even⟩
  · rintro ⟨before, after, rfl, even⟩
    exact ⟨_ :: d :: before, after, rfl, (even_backslashes_escape d before).2 even⟩

end Text

namespace Piece

/-- A string is closed by the first quotation mark that is not escaped, if there is one. -/
theorem quotedBody?_eq_none_iff (r : Text) : quotedBody? r = none ↔ ¬r.HasBareQuote := by
  fun_induction quotedBody? r with
  | case1 => simp [Text.not_hasBareQuote_nil]
  | case2 r => simp [Text.hasBareQuote_quote]
  | case3 => simp [Text.not_hasBareQuote_backslash]
  | case4 d s _ ih => rw [Option.map_eq_none_iff, ih, Text.hasBareQuote_escape]
  | case5 c r hquote hback ih =>
      rw [Option.map_eq_none_iff, ih, Text.hasBareQuote_plain hquote hback]

/-! ## Where no piece begins -/

/-- A string that is not closed, or a backslash at the end. -/
def Stuck (t : Text) : Prop :=
  (∃ r, t = CodePoint.ofChar '"' :: r ∧ ¬Text.HasBareQuote r) ∨ t = [CodePoint.ofChar '\\']

theorem stuck_quote_iff (r : Text) :
    Stuck (CodePoint.ofChar '"' :: r) ↔ ¬r.HasBareQuote := by
  have hne : CodePoint.ofChar '"' :: r ≠ [CodePoint.ofChar '\\'] := fun h =>
    absurd (List.cons.inj h).1 (by decide)
  simp [Stuck, hne]

theorem stuck_backslash_iff (r : Text) : Stuck (CodePoint.ofChar '\\' :: r) ↔ r = [] := by
  have hne (s : Text) : CodePoint.ofChar '\\' :: r ≠ CodePoint.ofChar '"' :: s := fun h =>
    absurd (List.cons.inj h).1 (by decide)
  simp [Stuck, hne]

theorem not_stuck_cons {c : CodePoint} (hquote : c ≠ '"') (hback : c ≠ '\\') (r : Text) :
    ¬Stuck (c :: r) := by
  rintro (⟨s, hs, -⟩ | hs)
  · exact hquote (List.cons.inj hs).1
  · exact hback (List.cons.inj hs).1

theorem not_stuck_nil : ¬Stuck [] := by
  simp [Stuck]

theorem next?_eq_none_iff (t : Text) : next? t = none ↔ t = [] ∨ Stuck t := by
  cases t with
  | nil => simp [next?]
  | cons c r =>
      rw [or_iff_right (List.cons_ne_nil c r)]
      by_cases hquote : c = '"'
      · subst hquote
        rw [stuck_quote_iff, ← quotedBody?_eq_none_iff, next?, if_neg (by decide),
          if_neg (by decide), if_pos rfl, Option.map_eq_none_iff]
      · by_cases hback : c = '\\'
        · subst hback
          rw [stuck_backslash_iff, next?, if_neg (by decide), if_neg (by decide),
            if_neg (by decide), if_pos rfl]
          cases r <;> simp
        · refine iff_of_false ?_ (not_stuck_cons hquote hback r)
          unfold next?
          simp only [hquote, hback, if_false]
          repeat' split
          all_goals exact Option.some_ne_none _

/-! ## Pieces in their places -/

/-- Pieces one behind the other, each with the place where it begins. -/
def placed (i : Nat) : List Piece → List (Nat × Piece)
  | [] => []
  | p :: ps => (i, p) :: placed (i + p.text.length) ps

/-- The pieces are cut off the text from the left, and leave a rest. -/
structure Partition (t : Text) (pieces : List Piece) (rest : Text) : Prop where
  whole : pieces.flatMap text ++ rest = t
  nonempty : ∀ p ∈ pieces, p.text ≠ []
  /-- Each piece is the one that begins what is left of the text. -/
  begins : ∀ before p after, before ++ p :: after = pieces →
    Begins (p.text ++ (after.flatMap text ++ rest)) p (after.flatMap text ++ rest)

theorem partition_of_cuts {t rest : Text} {pieces : List Piece} (h : Cuts t pieces rest) :
    Partition t pieces rest := by
  induction h with
  | done t => exact ⟨rfl, by simp, by simp⟩
  | @piece t mid rest p ps first more ih =>
      have htext := text_append_of_next? first
      refine ⟨by simp [ih.whole, htext],
        List.forall_mem_cons.2 ⟨text_ne_nil_of_next? first, ih.nonempty⟩, ?_⟩
      intro before q after heq
      cases before with
      | nil =>
          obtain ⟨rfl, rfl⟩ := List.cons.inj heq
          rw [ih.whole, htext]
          exact begins_of_next? first
      | cons _ before => exact ih.begins before q after (List.cons.inj heq).2

theorem eq_nil_of_stuck {t rest : Text} {pieces : List Piece} (h : Cuts t pieces rest)
    (stuck : Stuck t) : pieces = [] := by
  cases h with
  | done => rfl
  | piece first _ =>
      rw [(next?_eq_none_iff _).2 (.inr stuck)] at first
      cases first

theorem cuts_of_append {t rest : Text} {before after : List Piece}
    (h : Cuts t (before ++ after) rest) : Cuts (after.flatMap text ++ rest) after rest := by
  induction before generalizing t with
  | nil =>
      have hwhole := h.text_append
      rw [List.nil_append] at h hwhole
      rwa [hwhole]
  | cons p before ih =>
      cases h with
      | piece _ more => exact ih more

/-- The rest after the last piece is the only place where nothing might be cut off. -/
theorem stuck_rest_iff {t rest : Text} {pieces : List Piece} (h : Cuts t pieces rest) :
    Stuck rest ↔
      ∃ before after, before ++ after = pieces ∧ Stuck (after.flatMap text ++ rest) := by
  constructor
  · exact fun stuck => ⟨pieces, [], List.append_nil pieces, stuck⟩
  · rintro ⟨before, after, rfl, stuck⟩
    have hafter := eq_nil_of_stuck (cuts_of_append h) stuck
    rwa [hafter] at stuck

theorem next?_rest_all (t : Text) : next? (all t).2 = none := by
  induction hn : t.length using Nat.strong_induction_on generalizing t with
  | _ n ih =>
      cases h : next? t with
      | none => rwa [all_of_next?_eq_none h]
      | some e =>
          rw [all_of_next?_eq_some h]
          exact ih _ (hn ▸ length_lt_of_next? h) _ rfl

theorem rest_all_eq_nil_or_stuck (t : Text) : (all t).2 = [] ∨ Stuck (all t).2 :=
  (next?_eq_none_iff _).1 (next?_rest_all t)

end Piece

namespace Token

/-- The token of a piece that is a lexeme, on the line of its place. -/
def ofPlaced? (t : Text) (s : Nat × Piece) : Option Token :=
  match s.2 with
  | .lexeme l => some ⟨l, t.lineAt s.1⟩
  | _ => none

theorem ofPieces_eq_placed {t rest : Text} {pieces : List Piece} {i : Nat}
    (h : t.drop i = pieces.flatMap Piece.text ++ rest) :
    ofPieces (t.lineAt i) pieces = (Piece.placed i pieces).filterMap (ofPlaced? t) := by
  induction pieces generalizing i with
  | nil => rfl
  | cons p pieces ih =>
      rw [List.flatMap_cons, List.append_assoc] at h
      have hdrop : t.drop (i + p.text.length) = pieces.flatMap Piece.text ++ rest := by
        rw [← List.drop_drop, h, List.drop_left]
      have hrest := ih hdrop
      rw [Text.lineAt_add h] at hrest
      cases p with
      | lexeme l =>
          have hfirst : ofPlaced? t (i, .lexeme l) = some ⟨l, t.lineAt i⟩ := rfl
          rw [Piece.placed, List.filterMap_cons_some hfirst, ← hrest]
          rfl
      | _ =>
          rw [Piece.placed, List.filterMap_cons_none rfl]
          exact hrest

/-- The tokens of a text, up to the place where no piece begins. -/
def lexemes (t : Text) : List Token := (Piece.placed 0 (Piece.all t).1).filterMap (ofPlaced? t)

def reach (t : Text) : Nat := ((Piece.all t).1.flatMap Piece.text).length

theorem ofPieces_all (t : Text) : ofPieces 1 (Piece.all t).1 = lexemes t :=
  ofPieces_eq_placed (i := 0) (Piece.cuts_all t).text_append.symm

theorem tokenize_eq_lexemes (t : Text) :
    tokenize t =
      match (Piece.all t).2 with
      | [] => .ok (lexemes t)
      | c :: _ => .error (.unreadable c (t.lineAt (reach t))) := by
  have hwhole := (Piece.cuts_all t).text_append
  have hline : t.lineAt (reach t) = 1 + Text.countNewlines ((Piece.all t).1.flatMap Piece.text) := by
    have hadd := Text.lineAt_add (i := 0) hwhole.symm
    rwa [Nat.zero_add] at hadd
  rw [hline, ← ofPieces_all, tokenize]
  generalize Piece.all t = cut
  obtain ⟨pieces, _ | ⟨c, r⟩⟩ := cut <;> rfl

theorem eq_lexemes_of_tokenize {t : Text} {ts : List Token} (h : tokenize t = .ok ts) :
    ts = lexemes t := by
  rw [tokenize_eq_lexemes] at h
  split at h <;> cases h
  rfl

/-- Every text is cut from the left into pieces that are not empty, up to its end or up to a place
where none begins.  The tokens are the lexemes among the pieces, on the lines of their places.
Where the pieces do not reach the end, the code point behind them is reported, on its line; and
this happens just if at the end of some piece, or at the start, a string is left that is not
closed, or a backslash alone. -/
theorem tokenize_partitions (t : Text) :
    ∃ pieces rest,
      Piece.Partition t pieces rest ∧
      scan 1 t = ((Piece.placed 0 pieces).filterMap (ofPlaced? t), rest) ∧
      tokenize t =
        (match rest with
        | [] => .ok ((Piece.placed 0 pieces).filterMap (ofPlaced? t))
        | c :: _ => .error (.unreadable c (t.lineAt (pieces.flatMap Piece.text).length))) ∧
      ((∃ e, tokenize t = .error e) ↔
        ∃ before after, before ++ after = pieces ∧
          Piece.Stuck (after.flatMap Piece.text ++ rest)) := by
  have hcuts := Piece.cuts_all t
  have hrest := Piece.rest_all_eq_nil_or_stuck t
  have htokens := tokenize_eq_lexemes t
  refine ⟨(Piece.all t).1, (Piece.all t).2, Piece.partition_of_cuts hcuts, ?_, htokens, ?_⟩
  · rw [scan, ofPieces_all, lexemes]
  · rw [← Piece.stuck_rest_iff hcuts, htokens]
    generalize (Piece.all t).2 = rest at hrest ⊢
    cases rest with
    | nil => simp [Piece.not_stuck_nil]
    | cons c r => simpa using hrest

end Token

end Docsmith
