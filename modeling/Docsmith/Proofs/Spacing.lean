import Docsmith.Proofs.Conditionals

/-!
# Spacing does not matter to the reader

Between its lexemes a text may have any gaps and any comments that end with their line.  A
lexeme that was cut off some text is cut off again in front of each of them, whatever followed
it before: none of them has what a longer lexeme would have to go on with.
-/

namespace Docsmith

open Reader

def Piece.Separated (u : Text) : Prop := ∀ c ∈ u.head?, c.isGap = true ∨ c = CodePoint.ofChar ';'

/-- Gaps and comments with the ends of their lines, at least one of them. -/
inductive Separator : Text → Prop
  | gap {c : CodePoint} (blank : c.isGap = true) : Separator [c]
  | comment {body : Text} (line : Text.newline ∉ body) :
      Separator (CodePoint.ofChar ';' :: (body ++ [Text.newline]))
  | append {s t : Text} (left : Separator s) (right : Separator t) : Separator (s ++ t)

theorem Separator.separated {s : Text} (h : Separator s) (u : Text) : Piece.Separated (s ++ u) := by
  induction h generalizing u with
  | gap blank =>
      intro c hc
      cases hc
      exact .inl blank
  | comment =>
      intro c hc
      cases hc
      exact .inr rfl
  | append _ _ ihs _ =>
      rw [List.append_assoc]
      exact ihs _

/-! ## One lexeme before a separator -/

namespace Piece

theorem separated_nil : Separated [] := nofun

theorem Separated.boundary {u : Text} (h : Separated u) : Boundary u := by
  intro c hc
  rcases h c hc with hgap | rfl
  · simp [CodePoint.isAtom, hgap]
  · decide

theorem Separated.after?_eq_none {u lead r : Text} (h : Separated u)
    (hlead : ∀ c ∈ lead, c.isGap = false ∧ c ≠ CodePoint.ofChar ';')
    (hnone : Text.after? lead r = none) : Text.after? lead (r ++ u) = none := by
  cases u with
  | nil => rwa [List.append_nil]
  | cons x u =>
      have hx : x ∉ lead := by
        intro hmem
        obtain ⟨hgap, hne⟩ := hlead x hmem
        rcases h x rfl with hx | hx
        · rw [hx] at hgap
          cases hgap
        · exact hne hx
      rw [Text.after?_append_cons hx, hnone]
      rfl

theorem unseparated_of_signed : ∀ e ∈ signed, ∀ c ∈ e.1,
    c.isGap = false ∧ c ≠ CodePoint.ofChar ';' := by
  decide

/-- What is not at the front of a text is not at the front of a part of it. -/
theorem after?_eq_none_of_append {lead r s : Text} (h : Text.after? lead (r ++ s) = none) :
    Text.after? lead r = none := by
  induction lead generalizing r with
  | nil => cases h
  | cons a lead ih =>
      cases r with
      | nil => rfl
      | cons c r =>
          by_cases hc : a = c
          · simp only [List.cons_append, Text.after?, hc, if_true] at h ⊢
            exact ih h
          · simp [Text.after?, hc]

/-- A lexeme that was cut off a text is cut off again in front of any separator. -/
theorem next?_of_separated {t rest : Text} {l : Lexeme} (h : next? t = some (.lexeme l, rest))
    {u : Text} (hu : Separated u) : next? (l.text ++ u) = some (.lexeme l, u) := by
  generalize hp : Piece.lexeme l = p at h
  cases begins_of_next? h with
  | blank | comment => cases hp
  | str quoted =>
      cases hp
      exact next?_str (quotable_of_quotedBody? quoted) u
  | char more =>
      cases hp
      exact next?_char (charName_take more) hu.boundary
  | regex quoted =>
      cases hp
      exact next?_regex (quotable_of_quotedBody? quoted) u
  | signed rest known =>
      cases hp
      have htext := text_signed _ known
      dsimp only at htext
      rw [htext]
      exact next?_of_begins (.signed u known)
  | @signAtom r _ unknown =>
      cases hp
      have hatoms : ∀ c ∈ r.takeWhile CodePoint.isAtom, c.isAtom = true :=
        fun _ => List.mem_takeWhile_imp
      refine next?_signAtom hatoms hu.boundary ?_ ?_
      · rintro c hc rfl
        exact absurd (hu _ hc) (by decide)
      · intro e he
        have halone := unknown e he
        rw [← List.takeWhile_append_dropWhile (p := CodePoint.isAtom) (l := r)] at halone
        exact hu.after?_eq_none (unseparated_of_signed e he) (after?_eq_none_of_append halone)
  | splicing =>
      cases hp
      exact next?_of_begins (.splicing u)
  | @single c _ _ known alone =>
      cases hp
      rw [text_of_singles known]
      have halone : Text.after? "~@" [c] = none := after?_eq_none_of_append alone
      exact next?_of_begins (.single known (hu.after?_eq_none (by decide) halone))
  | @atom c r isAtom notSign unknown =>
      cases hp
      exact next?_atom (plainAtom_takeWhile r isAtom (notMark_of_singles notSign unknown)) hu.boundary

end Piece

/-! ## All lexemes of a text -/

def spread : List Lexeme → List Text → Text
  | l :: m :: ls, s :: ss => l.text ++ (s ++ spread (m :: ls) ss)
  | ls, _ => ls.flatMap Lexeme.text

namespace Token

theorem lex_skip {t rest : Text} {p : Piece} (h : Piece.next? t = some (p, rest))
    (hp : ∀ l, p ≠ .lexeme l) : lex t = lex rest := by
  rw [lex, scan_skip h hp, lex_eq (0 + p.text.countNewlines)]

theorem lex_comment {body : Text} (line : Text.newline ∉ body) (u : Text) :
    lex (CodePoint.ofChar ';' :: (body ++ Text.newline :: u)) = lex u := by
  have hbody : ∀ c ∈ body, decide (c ≠ Text.newline) = true :=
    fun c hc => decide_eq_true fun heq => line (heq ▸ hc)
  have hbegins := Piece.Begins.comment (body ++ Text.newline :: u)
  rw [List.dropWhile_append_of_pos hbody, List.dropWhile_cons_of_neg (by simp)] at hbegins
  rw [lex_skip (Piece.next?_of_begins hbegins) nofun, lex_gap (by decide)]

theorem lex_separator {s : Text} (h : Separator s) (u : Text) : lex (s ++ u) = lex u := by
  induction h generalizing u with
  | gap blank => exact lex_gap blank u
  | comment line =>
      rw [List.cons_append, List.append_assoc]
      exact lex_comment line u
  | append _ _ ihs iht => rw [List.append_assoc, ihs, iht]

theorem lex_cut {l : Lexeme} (h : Piece.IsCut l) {u : Text} (hu : Piece.Separated u) :
    lex (l.text ++ u) = (⟨l, 0⟩ :: (lex u).1, (lex u).2) := by
  obtain ⟨t, rest, hnext⟩ := h
  exact lex_lexeme (Piece.next?_of_separated hnext hu)

theorem lex_spread {ls : List Lexeme} (hcut : ∀ l ∈ ls, Piece.IsCut l) {seps : List Text}
    (hseps : ∀ s ∈ seps, Separator s) (enough : ls.length ≤ seps.length + 1) :
    lex (spread ls seps) = (ls.map fun l => ⟨l, 0⟩, []) := by
  induction ls generalizing seps with
  | nil => cases seps <;> exact scans_nil.lex_eq
  | cons l ls ih =>
      obtain ⟨hl, hls⟩ := List.forall_mem_cons.1 hcut
      cases ls with
      | nil =>
          have hspread : spread [l] seps = l.text ++ [] := by cases seps <;> rfl
          rw [hspread, lex_cut hl Piece.separated_nil, scans_nil.lex_eq]
          rfl
      | cons m ls =>
          cases seps with
          | nil => simp at enough
          | cons s seps =>
              obtain ⟨hs, hss⟩ := List.forall_mem_cons.1 hseps
              have hrest := ih hls hss (by simpa using enough)
              rw [spread, lex_cut hl (hs.separated _), lex_separator hs, hrest]
              rfl

theorem exists_tokenize_of_lex {t : Text} {us : List Token} (h : lex t = (us, [])) :
    ∃ ts, tokenize t = .ok ts ∧ ts.map lexeme = us.map lexeme := by
  rw [lex_eq 1] at h
  injection h with htokens hend
  refine ⟨(scan 1 t).1, tokenize_eq_ok_iff.2 (Prod.ext rfl hend), ?_⟩
  rw [← htokens, List.map_map]
  rfl

end Token

namespace Form

/-- The tokens of a text can be written with any separators between them: they are cut to the
same lexemes again, and reading them gives the same forms or the same error, up to lines. -/
theorem readUpToLines_spread {t : Text} {ts : List Token} (h : Token.tokenize t = .ok ts)
    {seps : List Text} (hseps : ∀ s ∈ seps, Separator s) (enough : ts.length ≤ seps.length + 1) :
    (∃ us, Token.tokenize (spread (ts.map Token.lexeme) seps) = .ok us ∧
      us.map Token.lexeme = ts.map Token.lexeme) ∧
    ∀ features, readUpToLines features (spread (ts.map Token.lexeme) seps) =
      readUpToLines features t := by
  have hcut : ∀ l ∈ ts.map Token.lexeme, Piece.IsCut l :=
    List.forall_mem_map.2 (Token.isCut_of_tokenize h)
  have hlex := Token.lex_spread hcut hseps (by simpa using enough)
  constructor
  · obtain ⟨us, hus, hlexemes⟩ := Token.exists_tokenize_of_lex hlex
    refine ⟨us, hus, hlexemes.trans ?_⟩
    rw [List.map_map]
    exact List.map_id _
  · intro features
    rw [List.map_map] at hlex
    rw [readUpToLines_eq, readUpToLines_eq, hlex, Token.lex_of_tokenize h]
    rfl

/-- A lone tilde before what would extend it, lone number signs, and characters that are
themselves a semicolon and a number. -/
theorem readUpToLines_lone_marks :
    (∃ us, Token.tokenize "~,@;~\n[\t# #;\n \\; ,\\o7\n]" = .ok us ∧ us.map Token.lexeme =
      [.quote .unquote, .quote .deref, .opener .bracket, .atom "#", .atom "#", .char ";",
        .char "o7", .closer .bracket]) ∧
    ∀ features, readUpToLines features "~,@;~\n[\t# #;\n \\; ,\\o7\n]" =
      readUpToLines features "~ @[# # \\;\\o7]" := by
  have hcuts : Piece.Cuts "~ @[# # \\;\\o7]" _ [] :=
    .piece rfl (.piece rfl (.piece rfl (.piece rfl (.piece rfl (.piece rfl (.piece rfl (.piece rfl
      (.piece rfl (.piece rfl (.piece rfl (.done _)))))))))))
  have hts : Token.tokenize "~ @[# # \\;\\o7]" = .ok [⟨.quote .unquote, 1⟩, ⟨.quote .deref, 1⟩,
      ⟨.opener .bracket, 1⟩, ⟨.atom "#", 1⟩, ⟨.atom "#", 1⟩, ⟨.char ";", 1⟩, ⟨.char "o7", 1⟩,
      ⟨.closer .bracket, 1⟩] := Token.tokenize_of_cuts hcuts
  have hgap (c : CodePoint) (h : c.isGap = true) : Separator [c] := .gap h
  have hcomment (body : Text) (h : Text.newline ∉ body) :
      Separator (CodePoint.ofChar ';' :: (body ++ [Text.newline])) := .comment h
  have hseps : ∀ s ∈ ([",", ";~\n", "\t", " ", ";\n ", " ,", "\n"] : List Text), Separator s := by
    simp only [List.forall_mem_cons]
    exact ⟨hgap _ (by decide), hcomment "~" (by decide), hgap _ (by decide),
      hgap _ (by decide), .append (hcomment [] (by decide)) (hgap _ (by decide)),
      .append (hgap _ (by decide)) (hgap _ (by decide)), hgap _ (by decide), by simp⟩
  exact readUpToLines_spread hts hseps (by decide)

end Form

end Docsmith
