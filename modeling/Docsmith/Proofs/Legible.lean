import Docsmith.Proofs.Context
import Docsmith.Proofs.RoundTrip

/-!
# Legible forms

Whatever has been read is written again as a text that is cut the same way in all places
where it can stand: before a gap, before a closing delimiter and at the end.  What the
written text is read as may differ, since a name may look like a mark; but its tokens
are balanced, and no conditional is among them.
-/

namespace Docsmith

open Reader

/-! ## Tokens without lines -/

namespace Token

def lex (t : Text) : List Token × Text :=
  ((scan 0 t).1.map (mapLines fun _ => 0), (scan 0 t).2)

theorem lex_eq (line : Nat) (t : Text) :
    lex t = ((scan line t).1.map (mapLines fun _ => 0), (scan line t).2) := by
  have hscan := scan_add 0 line t
  rw [Nat.zero_add] at hscan
  rw [hscan, List.map_map]
  rfl

theorem lex_lexeme {t rest : Text} {l : Lexeme} (h : Piece.next? t = some (.lexeme l, rest)) :
    lex t = (⟨l, 0⟩ :: (lex rest).1, (lex rest).2) := by
  rw [lex, scan_lexeme h, lex_eq (0 + l.text.countNewlines) rest]
  rfl

theorem lex_gap {c : CodePoint} (h : c.isGap = true) (t : Text) : lex (c :: t) = lex t := by
  have hgap : ∀ d ∈ [c], d.isGap = true := by simpa using h
  have hscan := scan_gap_append hgap 0 t
  rw [List.singleton_append] at hscan
  rw [lex, hscan, lex_eq (0 + Text.countNewlines [c]) t]

theorem lex_append_newline {t : Text} (h : (lex t).2 = []) (u : Text) :
    lex (t ++ Text.newline :: u) = ((lex t).1 ++ (lex u).1, (lex u).2) := by
  have hcuts := Piece.cuts_all t
  have hscan := scan_append_newline hcuts h 0 u
  rw [lex, hscan, lex_eq (0 + t.countNewlines + 1) u, lex, List.map_append]

theorem lex_of_tokenize {t : Text} {ts : List Token} (h : tokenize t = .ok ts) :
    lex t = (ts.map (mapLines fun _ => 0), []) := by
  rw [lex_eq 1, tokenize_eq_ok_iff.1 h]

end Token

/-! ## Where a text may end -/

def Piece.Ends (u : Text) : Prop :=
  ∀ c ∈ u.head?, c.isGap = true ∨ c = CodePoint.ofChar ')' ∨ c = CodePoint.ofChar ']' ∨
    c = CodePoint.ofChar '\x7d'

namespace Piece

theorem ends_nil : Ends [] := nofun

theorem ends_gap {c : CodePoint} (h : c.isGap = true) (u : Text) : Ends (c :: u) := by
  intro d hd
  cases hd
  exact .inl h

theorem ends_closer (c : Closer) (u : Text) : Ends (c.text ++ u) := by
  intro d hd
  cases c with
  | paren => cases hd; exact .inr (.inl rfl)
  | bracket => cases hd; exact .inr (.inr (.inl rfl))
  | brace => cases hd; exact .inr (.inr (.inr rfl))

theorem Ends.boundary {u : Text} (h : Ends u) : Boundary u := by
  intro c hc
  rcases h c hc with hgap | rfl | rfl | rfl
  · simp [CodePoint.isAtom, hgap]
  all_goals decide

/-- A lead of which nothing but its last code point could stand at an end. -/
theorem Ends.after? {u : Text} (h : Ends u) {lead : Text}
    (hlead : ∀ c ∈ lead, c.isGap = false ∧ c ≠ CodePoint.ofChar ')' ∧ c ≠ CodePoint.ofChar ']' ∧
      c ≠ CodePoint.ofChar '\x7d') (r : Text) :
    Text.after? lead (r ++ u) = (Text.after? lead r).map (· ++ u) := by
  cases u with
  | nil =>
      rw [List.append_nil]
      cases Text.after? lead r <;> simp
  | cons x u =>
      refine Text.after?_append_cons (fun hx => ?_) r u
      obtain ⟨hgap, hparen, hbracket, hbrace⟩ := hlead x hx
      rcases h x rfl with hx | hx | hx | hx
      · rw [hx] at hgap
        cases hgap
      · exact hparen hx
      · exact hbracket hx
      · exact hbrace hx

end Piece

namespace Token

structure Scans (t : Text) (ts : List Token) : Prop where
  lex : ∀ u, Piece.Ends u → lex (t ++ u) = (ts ++ (lex u).1, (lex u).2)
  balanced : Balanced ts
  unconditional : ∀ tok ∈ ts, tok.lexeme.isConditional = false

theorem Scans.lex_eq {t : Text} {ts : List Token} (h : Scans t ts) : Token.lex t = (ts, []) := by
  have hend : Token.lex [] = ([], []) := by
    rw [Token.lex, scan_nil]
    rfl
  simpa [hend] using h.lex [] Piece.ends_nil

theorem scans_nil : Scans [] [] where
  lex _ _ := rfl
  balanced := balanced_nil
  unconditional := by simp

theorem isConditional_of_isDelimiter {l : Lexeme} (h : l.isDelimiter = false) :
    l.isConditional = false := by
  cases l with
  | opener => cases h
  | _ => rfl

theorem scans_cons {l : Lexeme} {t rest : Text} {ts : List Token} (h : Scans rest ts)
    (plain : l.isDelimiter = false)
    (cut : ∀ u, Piece.Ends u → Piece.next? (t ++ u) = some (.lexeme l, rest ++ u)) :
    Scans t (⟨l, 0⟩ :: ts) where
  lex u hu := by
    rw [lex_lexeme (cut u hu), h.lex u hu]
    rfl
  balanced := (balanced_singleton plain).append h.balanced
  unconditional := List.forall_mem_cons.2 ⟨isConditional_of_isDelimiter plain, h.unconditional⟩

theorem scans_leaf {l : Lexeme} {t : Text} (plain : l.isDelimiter = false)
    (cut : ∀ u, Piece.Ends u → Piece.next? (t ++ u) = some (.lexeme l, u)) :
    Scans t [⟨l, 0⟩] :=
  scans_cons scans_nil plain cut

theorem Scans.space {t s : Text} {ts us : List Token} (ht : Scans t ts) (hs : Scans s us) :
    Scans (t ++ CodePoint.ofChar ' ' :: s) (ts ++ us) where
  lex u hu := by
    have hgap : (CodePoint.ofChar ' ').isGap = true := by decide
    rw [List.append_assoc, List.cons_append, ht.lex _ (Piece.ends_gap hgap _), lex_gap hgap,
      hs.lex u hu, List.append_assoc]
  balanced := ht.balanced.append hs.balanced
  unconditional := List.forall_mem_append.2 ⟨ht.unconditional, hs.unconditional⟩

theorem next?_opener (o : Opener) (u : Text) :
    Piece.next? (o.text ++ u) = some (.lexeme (.opener o), u) := by
  have hsigned (mark : Text) (known : (mark, Lexeme.opener o) ∈ Piece.signed) :
      Piece.next? (CodePoint.ofChar '#' :: (mark ++ u)) = some (.lexeme (.opener o), u) :=
    Piece.next?_of_begins (.signed u known)
  cases o with
  | paren | bracket | brace => exact Piece.next?_of_begins (.single rfl rfl)
  | setBrace => exact hsigned "\x7b" (by decide)
  | fnParen => exact hsigned "(" (by decide)
  | conditional => exact hsigned "?(" (by decide)
  | splice => exact hsigned "?@(" (by decide)

theorem Scans.lex_enclosed {t : Text} {ts : List Token} (h : Scans t ts) (o : Opener) (u : Text) :
    Token.lex (o.text ++ t ++ o.closer.text ++ u) =
      (⟨.opener o, 0⟩ :: (ts ++ [⟨.closer o.closer, 0⟩]) ++ (Token.lex u).1, (Token.lex u).2) := by
  rw [List.append_assoc, List.append_assoc, lex_lexeme (next?_opener o _),
    h.lex _ (Piece.ends_closer _ u), lex_lexeme (next?_closer _ u)]
  simp

theorem Scans.enclosed {t : Text} {ts : List Token} (h : Scans t ts) {o : Opener}
    (ho : o.isConditional = false) :
    Scans (o.text ++ t ++ o.closer.text) (⟨.opener o, 0⟩ :: (ts ++ [⟨.closer o.closer, 0⟩])) where
  lex u _ := h.lex_enclosed o u
  balanced := h.balanced.enclosed o _ 0 0
  unconditional := by
    refine List.forall_mem_cons.2 ⟨ho, List.forall_mem_append.2 ⟨h.unconditional, ?_⟩⟩
    simp [Lexeme.isConditional]

/-! ## Runs of atom characters

Inside a text such a run need not be an atom: marks may come first, one by one. -/

/-- What is known of the first lexeme of a run: it is cut off wherever the run may end. -/
structure Leads (t : Text) (l : Lexeme) (rest : Text) : Prop where
  plain : l.isDelimiter = false
  shorter : rest.length < t.length
  atoms : ∀ c ∈ rest, c.isAtom = true
  cut : ∀ u, Piece.Ends u → Piece.next? (t ++ u) = some (.lexeme l, rest ++ u)

theorem plain_of_signed : ∀ e ∈ Piece.signed, (∀ c ∈ e.1, c.isAtom = true) →
    e.2.isDelimiter = false := by
  decide

theorem plain_of_singles : ∀ e ∈ Piece.singles, e.1.isAtom = true → e.2.isDelimiter = false := by
  decide

theorem opens_of_signed : ∀ e ∈ Piece.signed, ∀ c ∈ e.1,
    c.isGap = false ∧ c ≠ CodePoint.ofChar ')' ∧ c ≠ CodePoint.ofChar ']' ∧
      c ≠ CodePoint.ofChar '\x7d' := by
  decide

theorem leads_signAtom {r : Text} (h : ∀ c ∈ r, c.isAtom = true)
    (unmarked : ∀ e ∈ Piece.signed, Text.after? e.1 r = none) :
    Leads (CodePoint.ofChar '#' :: r) (.atom (CodePoint.ofChar '#' :: r)) [] := by
  refine ⟨rfl, by simp, by simp, fun u hu => Piece.next?_signAtom h hu.boundary ?_ ?_⟩
  · rintro c hc rfl
    exact absurd (hu _ hc) (by decide)
  · intro e he
    rw [hu.after? (opens_of_signed e he), unmarked e he]
    rfl

theorem exists_leads_sign {r : Text} (h : ∀ c ∈ r, c.isAtom = true) :
    ∃ l rest, Leads (CodePoint.ofChar '#' :: r) l rest := by
  by_cases hmark : ∃ e ∈ Piece.signed, ∃ rest, Text.after? e.1 r = some rest
  · obtain ⟨⟨mark, l⟩, known, rest, hafter⟩ := hmark
    obtain rfl := Text.eq_append_of_after? hafter
    obtain ⟨hatoms, hrest⟩ := List.forall_mem_append.1 h
    have shorter : rest.length < (CodePoint.ofChar '#' :: (mark ++ rest)).length := by
      rw [List.length_cons, List.length_append]
      omega
    refine ⟨l, rest, plain_of_signed _ known hatoms, shorter, hrest, fun u _ => ?_⟩
    rw [List.cons_append, List.append_assoc]
    exact Piece.next?_of_begins (.signed (rest ++ u) known)
  · refine ⟨_, _, leads_signAtom h fun e he => ?_⟩
    exact Option.eq_none_iff_forall_ne_some.2 fun rest hrest => hmark ⟨e, he, rest, hrest⟩

theorem exists_leads {c : CodePoint} {r : Text} (h : ∀ d ∈ c :: r, d.isAtom = true) :
    ∃ l rest, Leads (c :: r) l rest := by
  obtain ⟨hc, hr⟩ := List.forall_mem_cons.1 h
  by_cases hsign : c = CodePoint.ofChar '#'
  · subst hsign
    exact exists_leads_sign hr
  cases hsplice : Text.after? "~@" (c :: r) with
  | some rest =>
      have heq := Text.eq_append_of_after? hsplice
      have shorter : rest.length < (c :: r).length := by
        have hmark : (Text.ofString "~@").length = 2 := rfl
        rw [heq, List.length_append]
        omega
      refine ⟨.quote .unquoteSplicing, rest, rfl, shorter, fun d hd => h d (by simp [heq, hd]),
        fun u _ => ?_⟩
      rw [heq]
      exact Piece.next?_of_begins (.splicing (rest ++ u))
  | none =>
      cases hknown : Piece.singles.get? c with
      | some l =>
          obtain ⟨e, he, hl⟩ := Option.map_eq_some_iff.1 hknown
          have hec : e.1 = c := by simpa using List.find?_some he
          have plain := plain_of_singles e (List.mem_of_find?_eq_some he) (hec ▸ hc)
          refine ⟨l, r, hl ▸ plain, by simp, hr, fun u hu => ?_⟩
          have alone := hu.after? (show ∀ c ∈ Text.ofString "~@", _ by decide) (c :: r)
          rw [hsplice] at alone
          exact Piece.next?_of_begins (.single hknown alone)
      | none =>
          have hmark := Piece.notMark_of_singles hsign hknown
          refine ⟨.atom (c :: r), [], rfl, by simp, by simp, fun u hu => ?_⟩
          refine Piece.next?_atom ⟨by simp, h, fun d hd => ?_⟩ hu.boundary
          cases hd
          exact hmark

theorem exists_scans_of_atoms {t : Text} (h : ∀ c ∈ t, c.isAtom = true) : ∃ ts, Scans t ts := by
  induction hn : t.length using Nat.strong_induction_on generalizing t with
  | _ n ih =>
      cases t with
      | nil => exact ⟨[], scans_nil⟩
      | cons c r =>
          -- Every lexeme takes something away, so the rest is shorter.
          obtain ⟨l, rest, hleads⟩ := exists_leads h
          obtain ⟨ts, hts⟩ := ih rest.length (hn ▸ hleads.shorter) hleads.atoms rfl
          exact ⟨_, scans_cons hts hleads.plain hleads.cut⟩

end Token

/-! ## Floats -/

namespace Form

theorem unmarked_append {s t : Text} (hs : Unmarked s) (ht : Unmarked t) : Unmarked (s ++ t) :=
  List.forall_mem_append.2 ⟨hs, ht⟩

theorem unmarked_repeated (n : Nat) : Unmarked (Text.repeated n '0') := by
  intro c hc
  rw [List.eq_of_mem_replicate hc]
  decide

theorem unmarked_digitsText (n : Nat) (place : Int) (style : Binary64.Style) :
    Unmarked (Binary64.digitsText n place style) := by
  have htake (k : Nat) : Unmarked ((Text.ofNat n).take k) := fun c hc =>
    unmarked_ofNat n c (List.mem_of_mem_take hc)
  have hdrop (k : Nat) : Unmarked ((Text.ofNat n).drop k) := fun c hc =>
    unmarked_ofNat n c (List.mem_of_mem_drop hc)
  unfold Binary64.digitsText
  simp only
  split
  · split
    · exact unmarked_append (unmarked_append (by decide) (unmarked_repeated _)) (unmarked_ofNat n)
    split
    · exact unmarked_append (unmarked_append (htake _) (by decide)) (hdrop _)
    · exact unmarked_append (unmarked_append (unmarked_ofNat n) (unmarked_repeated _)) (by decide)
  · apply unmarked_append
    · apply unmarked_append
      · apply unmarked_append _ (by decide)
        apply unmarked_append (htake 1)
        split
        · decide
        · exact List.forall_mem_cons.2 ⟨by decide, hdrop 1⟩
      · split <;> decide
    · exact unmarked_append (unmarked_repeated _) (unmarked_ofNat _)

theorem digitsText_ne_nil (n : Nat) (place : Int) (style : Binary64.Style) :
    Binary64.digitsText n place style ≠ [] := by
  unfold Binary64.digitsText
  simp only
  split
  · split
    · simp [Text.ofString]
    split <;> simp [Text.ofString]
  · simp [Text.ofString]

theorem plainAtom_text (x : Binary64) : Piece.PlainAtom (x.text Binary64.plainStyle) := by
  cases x with
  | nan => exact Unmarked.plainAtom (by decide) (by decide)
  | infinite negative => cases negative <;> exact Unmarked.plainAtom (by decide) (by decide)
  | finite negative mantissa exponent =>
      have hsign : Unmarked (if negative then Text.ofString "-" else Text.ofString "") := by
        cases negative <;> decide
      unfold Binary64.text
      simp only
      split
      · exact (unmarked_append hsign (by decide)).plainAtom (by simp [Text.ofString])
      · apply (unmarked_append hsign (unmarked_digitsText _ _ _)).plainAtom
        simp [digitsText_ne_nil]

/-! ## What is read is legible -/

inductive Legible : Form → Prop
  | run {f : Form} (atoms : ∀ c ∈ f.render, c.isAtom = true) : Legible f
  | str (s : Text) : Legible (.str s)
  | regex {source : Text} (quotable : Piece.Quotable source) : Legible (.regex source)
  | char {name : Text} (named : Piece.CharName name) : Legible (.char name)
  | coll {shape : Shape} {items : List Form} (line : Nat) (legible : ∀ f ∈ items, Legible f) :
      Legible (.coll shape line items)

theorem legible_symbol {name : Text} (h : ∀ c ∈ name, c.isAtom = true) (attrs : Attrs) :
    Legible (.symbol name attrs) :=
  .run h

theorem Legible.item {shape : Shape} {line : Nat} {items : List Form}
    (h : Legible (.coll shape line items)) : ∀ f ∈ items, Legible f := by
  cases h with
  | run atoms =>
      rw [render, brackets_eq] at atoms
      obtain ⟨-, hcloser⟩ := List.forall_mem_append.1 atoms
      cases shape <;> exact absurd (hcloser _ (List.mem_singleton.2 rfl)) (by decide)
  | coll _ legible => exact legible

theorem inherited_legible : Grammar.Inherited Legible where
  name q := legible_symbol (symbolName_quote q).atoms []
  coll line _ h := .coll line h
  item h := h.item
  annotate {m f} _ hf := by
    cases f with
    | symbol name own =>
        cases hf with
        | run atoms => exact legible_symbol atoms _
    | _ => exact hf

end Form

theorem Piece.isAtom_of_next? {t rest a : Text} (h : next? t = some (.lexeme (.atom a), rest)) :
    ∀ c ∈ a, c.isAtom = true := by
  generalize hp : Piece.lexeme (.atom a) = p at h
  cases begins_of_next? h with
  | blank | comment | str | char | regex | splicing => cases hp
  | signed rest known =>
      cases hp
      revert known
      simp [signed]
  | single known =>
      cases hp
      obtain ⟨e, he, hl⟩ := Option.map_eq_some_iff.1 known
      have hnone : ∀ e ∈ singles, ∀ a, e.2 ≠ .atom a := by simp [singles]
      exact absurd hl (hnone e (List.mem_of_find?_eq_some he) a)
  | signAtom =>
      cases hp
      exact List.forall_mem_cons.2 ⟨by decide, fun _ hc => List.mem_takeWhile_imp hc⟩
  | atom r isAtom =>
      cases hp
      exact List.forall_mem_cons.2 ⟨isAtom, fun _ hc => List.mem_takeWhile_imp hc⟩

theorem Token.isAtom_of_tokenize {t : Text} {ts : List Token} (h : tokenize t = .ok ts) :
    ∀ tok ∈ ts, ∀ a, tok.lexeme = .atom a → ∀ c ∈ a, c.isAtom = true := by
  intro tok htok a ha
  obtain ⟨u, rest, hnext⟩ := isCut_of_tokenize h tok htok
  rw [ha] at hnext
  exact Piece.isAtom_of_next? hnext

namespace Form

open Grammar

theorem legible_of_ofAtom {a : Text} {f : Form} (h : ∀ c ∈ a, c.isAtom = true)
    (reads : ofAtom a = .ok f) : Legible f := by
  cases spells_of_ofAtom reads with
  | nil => exact .run (by decide)
  | bool b => cases b <;> exact .run (by decide)
  | keyword =>
      exact .run (List.forall_mem_cons.2
        ⟨by decide, fun c hc => h c ((List.dropWhile_sublist _).mem hc)⟩)
  | decimal => exact .run (plainAtom_ofInt _).atoms
  | hex => exact .run (plainAtom_ofInt _).atoms
  | float x => exact .run (plainAtom_text x).atoms
  | name => exact legible_symbol h []

theorem legible_of_denotes {l : Lexeme} {f : Form} (valid : Piece.Valid l)
    (atoms : ∀ a, l = .atom a → ∀ c ∈ a, c.isAtom = true) (h : Denotes l f) : Legible f := by
  cases h with
  | str body => exact .str _
  | regex body => exact .regex valid
  | char name => exact .char valid
  | special name => exact legible_symbol (List.forall_mem_append.1 (atoms _ rfl)).2 []
  | atom plain reads => exact legible_of_ofAtom (atoms _ rfl) reads

theorem legible_of_readAll {features : List Text} {t : Text} {fs : List Form}
    (h : readAll features t = .ok fs) : ∀ f ∈ fs, Legible f := by
  obtain ⟨ts, hts, hread⟩ := exists_of_bind_eq_ok h
  have hvalid := Token.valid_of_tokenize hts
  have hatoms := Token.isAtom_of_tokenize hts
  exact (derives_of_readTokens hread).forall_of_inherited inherited_legible
    fun tok htok g hg => legible_of_denotes (hvalid tok htok) (hatoms tok htok) hg

/-! ## What is legible is cut the same way everywhere -/

theorem scans_join_cons {t : Text} {texts : List Text} {ts us : List Token}
    (ht : Token.Scans t ts) (htexts : Token.Scans (Text.join " " texts) us) :
    Token.Scans (Text.join " " (t :: texts)) (ts ++ us) := by
  cases texts with
  | nil =>
      obtain rfl : us = [] := congrArg Prod.fst (htexts.lex_eq.symm.trans Token.scans_nil.lex_eq)
      simpa [Text.join] using ht
  | cons t' texts => simpa [Text.join, Text.ofString] using ht.space htexts

theorem exists_scans_of_forall {fs : List Form} (h : ∀ f ∈ fs, ∃ ts, Token.Scans f.render ts) :
    ∃ ts, Token.Scans (Text.join " " (renderItems fs)) ts := by
  induction fs with
  | nil => exact ⟨[], Token.scans_nil⟩
  | cons f fs ih =>
      obtain ⟨⟨ts, hts⟩, hrest⟩ := List.forall_mem_cons.1 h
      obtain ⟨us, hus⟩ := ih hrest
      exact ⟨_, scans_join_cons hts hus⟩

theorem isConditional_opener (shape : Shape) : (opener shape).isConditional = false := by
  cases shape <;> rfl

theorem render_coll (shape : Shape) (line : Nat) (items : List Form) :
    render (.coll shape line items) =
      (opener shape).text ++ Text.join " " (renderItems items) ++ (opener shape).closer.text := by
  rw [render, brackets_eq]

theorem Legible.exists_scans {f : Form} (h : Legible f) : ∃ ts, Token.Scans f.render ts := by
  induction h with
  | run atoms => exact Token.exists_scans_of_atoms atoms
  | str s =>
      exact ⟨_, Token.scans_leaf rfl fun u _ => Piece.next?_str (quotable_escape s) u⟩
  | regex quotable =>
      exact ⟨_, Token.scans_leaf rfl fun u _ => Piece.next?_regex quotable u⟩
  | char named =>
      exact ⟨_, Token.scans_leaf rfl fun u hu => Piece.next?_char named hu.boundary⟩
  | coll line _ ih =>
      obtain ⟨ts, hts⟩ := exists_scans_of_forall ih
      rw [render_coll]
      exact ⟨_, hts.enclosed (isConditional_opener _)⟩

end Form

end Docsmith
