import Docsmith.Form.Printer
import Docsmith.Proofs.Atoms
import Docsmith.Proofs.Pieces

/-!
# The spelling of leaves

For each kind of form that is one lexeme: the texts that spell it, that such a text is cut
off as one piece wherever an atom ends, and that whatever is cut off is such a text.
-/

namespace Docsmith

namespace Piece

def Boundary (u : Text) : Prop := ∀ c ∈ u.head?, c.isAtom = false

theorem boundary_nil : Boundary [] := nofun

theorem boundary_cons {c : CodePoint} (h : c.isAtom = false) (u : Text) : Boundary (c :: u) := by
  intro d hd
  cases hd
  exact h

/-! ## Quoted bodies -/

inductive Quotable : Text → Prop
  | nil : Quotable []
  | escaped (d : CodePoint) {r : Text} (rest : Quotable r) :
      Quotable (CodePoint.ofChar '\\' :: d :: r)
  | plain {c : CodePoint} {r : Text} (notQuote : c ≠ '"') (notBackslash : c ≠ '\\')
      (rest : Quotable r) : Quotable (c :: r)

theorem quotedBody?_of_quotable {body : Text} (h : Quotable body) (u : Text) :
    quotedBody? (body ++ CodePoint.ofChar '"' :: u) = some (body, u) := by
  induction h with
  | nil => exact quotedBody?_quote u
  | escaped d _ ih =>
      rw [List.cons_append, List.cons_append, quotedBody?_escape, ih]
      rfl
  | plain notQuote notBackslash _ ih =>
      rw [List.cons_append, quotedBody?_plain notQuote notBackslash, ih]
      rfl

theorem quotable_of_quotedBody? {t body rest : Text} (h : quotedBody? t = some (body, rest)) :
    Quotable body := by
  fun_induction quotedBody? t generalizing body rest with
  | case1 => simp at h
  | case2 r =>
      cases h
      exact .nil
  | case3 => simp at h
  | case4 d s _ ih =>
      obtain ⟨⟨b, u⟩, hb, he⟩ := Option.map_eq_some_iff.1 h
      cases he
      exact .escaped d (ih hb)
  | case5 c r notQuote notBackslash ih =>
      obtain ⟨⟨b, u⟩, hb, he⟩ := Option.map_eq_some_iff.1 h
      cases he
      exact .plain notQuote notBackslash (ih hb)

theorem next?_str {body : Text} (h : Quotable body) (u : Text) :
    next? ((Lexeme.str body).text ++ u) = some (.lexeme (.str body), u) := by
  have htext : (Lexeme.str body).text ++ u =
      CodePoint.ofChar '"' :: (body ++ CodePoint.ofChar '"' :: u) := by
    simp [Lexeme.text, Text.ofString]
  rw [htext]
  exact next?_of_begins (.str (quotedBody?_of_quotable h u))

theorem next?_regex {body : Text} (h : Quotable body) (u : Text) :
    next? ((Lexeme.regex body).text ++ u) = some (.lexeme (.regex body), u) := by
  have htext : (Lexeme.regex body).text ++ u =
      CodePoint.ofChar '#' :: CodePoint.ofChar '"' :: (body ++ CodePoint.ofChar '"' :: u) := by
    simp [Lexeme.text, Text.ofString]
  rw [htext]
  exact next?_of_begins (.regex (quotedBody?_of_quotable h u))

/-! ## Names of characters -/

inductive CharName : Text → Prop
  | named {name : Text} (known : name ∈ charNames) : CharName name
  | hex {digits : Text} (four : digits.length = 4)
      (all : ∀ d ∈ digits, d.isHexDigit = true) : CharName (CodePoint.ofChar 'u' :: digits)
  | octal {digits : Text} (some : digits ≠ []) (three : digits.length ≤ 3)
      (all : ∀ d ∈ digits, d.isOctalDigit = true) : CharName (CodePoint.ofChar 'o' :: digits)
  | single (c : CodePoint) : CharName [c]

theorem CharName.ne_nil {name : Text} (h : CharName name) : name ≠ [] := by
  cases h with
  | named known =>
      rintro rfl
      revert known
      decide
  | _ => simp

theorem find?_charNames_cons {c : CodePoint} (h : ∀ name ∈ charNames, name.head? ≠ some c)
    (r : Text) : charNames.find? (·.isPrefixOf (c :: r)) = none := by
  rw [List.find?_eq_none]
  intro name hname hlead
  obtain ⟨s, hs⟩ := List.isPrefixOf_iff_prefix.1 hlead
  have hne : name ≠ [] := CharName.ne_nil (.named hname)
  obtain ⟨d, q, rfl⟩ := List.exists_cons_of_ne_nil hne
  cases hs
  exact h _ hname rfl

theorem charLength_cons {c : CodePoint} {r : Text}
    (h : charNames.find? (·.isPrefixOf (c :: r)) = none) :
    charLength (c :: r) =
      if c = 'u' && 4 ≤ r.length && (r.take 4).all CodePoint.isHexDigit then 5
      else if c = 'o' then 1 + ((r.take 3).takeWhile CodePoint.isOctalDigit).length
      else 1 := by
  rw [charLength, h]

theorem charLength_of_charName {name : Text} (h : CharName name) :
    charLength name = name.length := by
  cases h with
  | named known =>
      revert name
      decide
  | hex four all =>
      rw [charLength_cons (find?_charNames_cons (by decide) _), List.take_of_length_le four.le]
      simp [four, List.all_eq_true.2 all]
  | octal some three all =>
      have hsign : CodePoint.ofChar 'o' ≠ CodePoint.ofChar 'u' := by decide
      rw [charLength_cons (find?_charNames_cons (by decide) _), List.take_of_length_le three,
        List.takeWhile_eq_self_iff.2 all]
      simp [hsign, Nat.add_comm]
  | single c =>
      have hnone : charNames.find? (·.isPrefixOf [c]) = none := by
        have hlong : ∀ name ∈ charNames, 1 < name.length := by decide
        rw [List.find?_eq_none]
        intro name hname hlead
        exact Nat.not_le.2 (hlong name hname) (List.isPrefixOf_iff_prefix.1 hlead).length_le
      rw [charLength_cons hnone]
      by_cases ho : c = 'o' <;> simp [ho]

theorem take_length_octal (r : Text) :
    r.take ((r.take 3).takeWhile CodePoint.isOctalDigit).length =
      (r.take 3).takeWhile CodePoint.isOctalDigit := by
  have hlead := (List.takeWhile_prefix CodePoint.isOctalDigit).trans (List.take_prefix 3 r)
  exact (List.prefix_iff_eq_take.1 hlead).symm

theorem charName_take {r : Text} (h : r ≠ []) : CharName (r.take (charLength r)) := by
  cases hfind : charNames.find? (·.isPrefixOf r) with
  | some name =>
      have hlead : name.isPrefixOf r = true := by simpa using List.find?_some hfind
      have htake : r.take (charLength r) = name := by
        unfold charLength
        rw [hfind]
        exact (List.prefix_iff_eq_take.1 (List.isPrefixOf_iff_prefix.1 hlead)).symm
      rw [htake]
      exact .named (List.mem_of_find?_eq_some hfind)
  | none =>
      obtain ⟨c, r, rfl⟩ := List.exists_cons_of_ne_nil h
      rw [charLength_cons hfind]
      split
      case isTrue hhex =>
        simp only [Bool.and_eq_true, decide_eq_true_eq] at hhex
        obtain ⟨⟨rfl, hlength⟩, hall⟩ := hhex
        exact .hex (by simp [hlength]) (List.all_eq_true.1 hall)
      case isFalse =>
        split
        case isTrue ho =>
          subst ho
          rw [Nat.add_comm, List.take_succ_cons, take_length_octal]
          by_cases hnone : (r.take 3).takeWhile CodePoint.isOctalDigit = []
          · rw [hnone]
            exact .single _
          · exact .octal hnone ((List.takeWhile_prefix _).length_le.trans (List.length_take_le 3 r))
              fun d hd => (List.mem_takeWhile_imp hd)
        case isFalse => exact .single c

theorem next?_char {name : Text} (h : CharName name) {u : Text} (hu : Boundary u) :
    next? ((Lexeme.char name).text ++ u) = some (.lexeme (.char name), u) := by
  have hlength : charLength (name ++ u) = name.length := by
    cases u with
    | nil => rw [List.append_nil, charLength_of_charName h]
    | cons x u => rw [charLength_append_cons (hu x rfl) h.ne_nil, charLength_of_charName h]
  have hbegins := Begins.char (r := name ++ u) (by simp [h.ne_nil])
  rw [hlength, List.take_left, List.drop_left] at hbegins
  exact next?_of_begins hbegins

/-! ## Atoms -/

/-- The code points of which a mark of its own begins, although an atom may hold them. -/
def marks : Text := "'`~@^#"

structure PlainAtom (t : Text) : Prop where
  nonempty : t ≠ []
  atoms : ∀ c ∈ t, c.isAtom = true
  start : ∀ c ∈ t.head?, c ∉ marks

theorem notMark_of_singles {c : CodePoint} (notSign : c ≠ '#') (h : singles.get? c = none) :
    c ∉ marks := by
  have hmarks : ∀ m ∈ marks, m = '#' ∨ singles.get? m ≠ none := by decide
  intro hc
  rcases hmarks c hc with hsign | hknown
  · exact notSign hsign
  · exact hknown h

theorem singles_of_notMark {c : CodePoint} (isAtom : c.isAtom = true) (h : c ∉ marks) :
    singles.get? c = none := by
  have hsingles : ∀ e ∈ singles, e.1 ∈ marks ∨ e.1.isAtom = false := by decide
  cases hget : singles.get? c with
  | none => rfl
  | some l =>
      obtain ⟨e, he, rfl⟩ := Option.map_eq_some_iff.1 hget
      have hc : e.1 = c := by simpa using List.find?_some he
      rcases hsingles e (List.mem_of_find?_eq_some he) with hmark | hnot
      · exact absurd (hc ▸ hmark) h
      · rw [hc, isAtom] at hnot
        cases hnot

theorem takeWhile_of_boundary {u : Text} (hu : Boundary u) : u.takeWhile CodePoint.isAtom = [] := by
  cases u with
  | nil => rfl
  | cons c u => simp [hu c rfl]

theorem dropWhile_of_boundary {u : Text} (hu : Boundary u) : u.dropWhile CodePoint.isAtom = u := by
  cases u with
  | nil => rfl
  | cons c u => simp [hu c rfl]

theorem next?_atom {t : Text} (h : PlainAtom t) {u : Text} (hu : Boundary u) :
    next? ((Lexeme.atom t).text ++ u) = some (.lexeme (.atom t), u) := by
  obtain ⟨c, r, rfl⟩ := List.exists_cons_of_ne_nil h.nonempty
  have hatom : c.isAtom = true := h.atoms c (by simp)
  have hrest : ∀ d ∈ r, d.isAtom = true := fun d hd => h.atoms d (by simp [hd])
  have hmark : c ∉ marks := h.start c rfl
  have hsign : c ≠ '#' := by
    rintro rfl
    exact hmark (by decide)
  have hbegins := Begins.atom (r ++ u) hatom hsign (singles_of_notMark hatom hmark)
  rw [List.takeWhile_append_of_pos hrest, List.dropWhile_append_of_pos hrest,
    takeWhile_of_boundary hu, dropWhile_of_boundary hu, List.append_nil] at hbegins
  exact next?_of_begins hbegins

theorem next?_signAtom {r : Text} (h : ∀ c ∈ r, c.isAtom = true) {u : Text}
    (hu : Boundary u) (unquoted : ∀ c ∈ u.head?, c ≠ CodePoint.ofChar '"')
    (unknown : ∀ e ∈ signed, Text.after? e.1 (r ++ u) = none) :
    next? (CodePoint.ofChar '#' :: (r ++ u)) =
      some (.lexeme (.atom (CodePoint.ofChar '#' :: r)), u) := by
  have noRegex : NoRegex (r ++ u) := by
    intro s hs
    cases r with
    | nil =>
        subst hs
        exact absurd rfl (unquoted (CodePoint.ofChar '"') rfl)
    | cons c r =>
        injection hs with hc _
        have hatom := h c (by simp)
        rw [hc] at hatom
        exact absurd hatom (by decide)
  have hbegins := Begins.signAtom noRegex unknown
  rw [List.takeWhile_append_of_pos h, List.dropWhile_append_of_pos h,
    takeWhile_of_boundary hu, dropWhile_of_boundary hu, List.append_nil] at hbegins
  exact next?_of_begins hbegins

/-! ## What the lexemes of a text are -/

def Valid : Lexeme → Prop
  | .regex body => Quotable body
  | .char name => CharName name
  | .atom t => t.head? = some (CodePoint.ofChar '#') ∨ PlainAtom t
  | _ => True

theorem valid_signed : ∀ e ∈ signed, Valid e.2 := by
  simp [signed, Valid]

theorem valid_singles : ∀ e ∈ singles, Valid e.2 := by
  simp [singles, Valid]

theorem plainAtom_takeWhile {c : CodePoint} (r : Text) (isAtom : c.isAtom = true)
    (h : c ∉ marks) : PlainAtom (c :: r.takeWhile CodePoint.isAtom) where
  nonempty := by simp
  atoms := by
    intro d hd
    rcases List.mem_cons.1 hd with rfl | hd
    · exact isAtom
    · exact List.mem_takeWhile_imp hd
  start := by
    intro d hd
    cases hd
    exact h

theorem valid_of_next? {t rest : Text} {l : Lexeme} (h : next? t = some (.lexeme l, rest)) :
    Valid l := by
  generalize hp : Piece.lexeme l = p at h
  cases begins_of_next? h with
  | blank | comment => cases hp
  | str => cases hp; trivial
  | char more => cases hp; exact charName_take more
  | regex quoted => cases hp; exact quotable_of_quotedBody? quoted
  | signed rest known => cases hp; exact valid_signed _ known
  | signAtom => cases hp; exact .inl rfl
  | splicing => cases hp; trivial
  | single known =>
      cases hp
      obtain ⟨e, he, rfl⟩ := Option.map_eq_some_iff.1 known
      exact valid_singles e (List.mem_of_find?_eq_some he)
  | atom r isAtom notSign unknown =>
      cases hp
      exact .inr (plainAtom_takeWhile r isAtom (notMark_of_singles notSign unknown))

def IsCut (l : Lexeme) : Prop := ∃ t rest, next? t = some (.lexeme l, rest)

theorem IsCut.valid {l : Lexeme} (h : IsCut l) : Valid l := by
  obtain ⟨t, rest, hnext⟩ := h
  exact valid_of_next? hnext

theorem isCut_of_cuts {t last : Text} {ps : List Piece} (h : Cuts t ps last) :
    ∀ l, .lexeme l ∈ ps → IsCut l := by
  induction h with
  | done => simp
  | @piece t rest _ _ _ first _ ih =>
      intro l hl
      rcases List.mem_cons.1 hl with rfl | hl
      · exact ⟨t, rest, first⟩
      · exact ih l hl

end Piece

namespace Token

theorem ofPieces_append (line : Nat) (ps qs : List Piece) :
    ofPieces line (ps ++ qs) =
      ofPieces line ps ++ ofPieces (line + Text.countNewlines (ps.flatMap Piece.text)) qs := by
  induction ps generalizing line with
  | nil => simp [ofPieces, Text.countNewlines]
  | cons p ps ih =>
      have hcount : line + p.text.countNewlines +
          Text.countNewlines (ps.flatMap Piece.text) =
          line + Text.countNewlines ((p :: ps).flatMap Piece.text) := by
        simp [Text.countNewlines, Nat.add_assoc]
      have hrest := ih (line + p.text.countNewlines)
      rw [hcount] at hrest
      cases p with
      | lexeme l => simp only [List.cons_append, ofPieces, hrest]
      | _ => simpa only [List.cons_append, ofPieces] using hrest

theorem mem_of_mem_ofPieces {line : Nat} {ps : List Piece} {t : Token}
    (h : t ∈ ofPieces line ps) : .lexeme t.lexeme ∈ ps := by
  induction ps generalizing line with
  | nil => cases h
  | cons p ps ih =>
      cases p with
      | lexeme l =>
          rcases List.mem_cons.1 h with rfl | h
          · exact List.mem_cons_self
          · exact List.mem_cons_of_mem _ (ih h)
      | _ => exact List.mem_cons_of_mem _ (ih h)

theorem isCut_of_tokenize {t : Text} {ts : List Token} (h : tokenize t = .ok ts) :
    ∀ tok ∈ ts, Piece.IsCut tok.lexeme := by
  have hcuts := Piece.cuts_all t
  have hpieces : ts = ofPieces 1 (Piece.all t).1 := by
    unfold tokenize at h
    generalize Piece.all t = cut at h ⊢
    obtain ⟨ps, last⟩ := cut
    cases last with
    | nil => exact (Except.ok.inj h).symm
    | cons => cases h
  subst hpieces
  intro tok htok
  exact Piece.isCut_of_cuts hcuts tok.lexeme (mem_of_mem_ofPieces htok)

theorem valid_of_tokenize {t : Text} {ts : List Token} (h : tokenize t = .ok ts) :
    ∀ tok ∈ ts, Piece.Valid tok.lexeme :=
  fun tok htok => (isCut_of_tokenize h tok htok).valid

end Token

/-! ## Strings -/

namespace Form

theorem escape_special {c : CodePoint} (h : c = '\\' ∨ c = '"') (r : Text) :
    escape (c :: r) = CodePoint.ofChar '\\' :: c :: escape r := by
  simp [escape, h]

theorem escape_plain {c : CodePoint} (notQuote : c ≠ '"') (notBackslash : c ≠ '\\') (r : Text) :
    escape (c :: r) = c :: escape r := by
  simp [escape, notQuote, notBackslash]

theorem quotable_escape (s : Text) : Piece.Quotable (escape s) := by
  induction s with
  | nil => exact .nil
  | cons c r ih =>
      by_cases hspecial : c = '\\' ∨ c = '"'
      · rw [escape_special hspecial]
        exact .escaped c ih
      · obtain ⟨notBackslash, notQuote⟩ := not_or.1 hspecial
        rw [escape_plain notQuote notBackslash]
        exact .plain notQuote notBackslash ih

theorem unescape_plain {c : CodePoint} (notBackslash : c ≠ '\\') (r : Text) :
    unescape (c :: r) = c :: unescape r := by
  cases r with
  | nil => simp [unescape]
  | cons d r =>
      rw [unescape.eq_def]
      simp only [notBackslash, if_false]

theorem unescape_escaped {d : CodePoint} (h : d ≠ 'u') (r : Text) :
    unescape (CodePoint.ofChar '\\' :: d :: r) = unescapePoint d :: unescape r := by
  rw [unescape.eq_def]
  simp only [if_true, h, decide_false, Bool.false_and, Bool.false_eq_true, if_false]
  split <;> rfl

theorem unescape_escape (s : Text) : unescape (escape s) = s := by
  induction s with
  | nil => rfl
  | cons c r ih =>
      by_cases hspecial : c = '\\' ∨ c = '"'
      · have hpoint : c ≠ 'u' ∧ unescapePoint c = c := by
          rcases hspecial with rfl | rfl <;> decide
        rw [escape_special hspecial, unescape_escaped hpoint.1, hpoint.2, ih]
      · obtain ⟨notBackslash, notQuote⟩ := not_or.1 hspecial
        rw [escape_plain notQuote notBackslash, unescape_plain notBackslash, ih]

end Form

end Docsmith
