import Docsmith.Proofs.Lines
import Docsmith.Proofs.Outcome
import Docsmith.Proofs.Pieces

/-!
# Reading is local

A text that is read, a line feed and any other text: the tokens of the two stay apart,
and the reader begins the second with nothing open.  So the second is read as if it stood
alone, further down.
-/

namespace Docsmith

namespace Token

theorem ofPieces_add (line k : Nat) (ps : List Piece) :
    ofPieces (line + k) ps = (ofPieces line ps).map (mapLines (· + k)) := by
  induction ps generalizing line with
  | nil => rfl
  | cons p ps ih =>
      have hrest := ih (line + p.text.countNewlines)
      rw [Nat.add_right_comm] at hrest
      cases p with
      | lexeme l =>
          simp only [ofPieces, List.map_cons, hrest]
          rfl
      | _ => exact hrest

theorem scan_add (line k : Nat) (t : Text) :
    scan (line + k) t = ((scan line t).1.map (mapLines (· + k)), (scan line t).2) := by
  simp only [scan, ofPieces_add]

theorem countNewlines_all (t : Text) :
    Text.countNewlines ((Piece.all t).1.flatMap Piece.text) + (Piece.all t).2.countNewlines =
      t.countNewlines := by
  have htext := (Piece.cuts_all t).text_append
  calc
    _ = Text.countNewlines ((Piece.all t).1.flatMap Piece.text ++ (Piece.all t).2) :=
        List.countP_append.symm
    _ = t.countNewlines := by rw [htext]

theorem tokenize_eq (t : Text) :
    tokenize t =
      match scan 1 t with
      | (ts, []) => .ok ts
      | (_, c :: r) =>
          .error (.unreadable c (1 + (t.countNewlines - Text.countNewlines (c :: r)))) := by
  have hcount := countNewlines_all t
  simp only [tokenize, scan]
  generalize Piece.all t = cut at hcount ⊢
  obtain ⟨ps, last⟩ := cut
  cases last with
  | nil => rfl
  | cons c r =>
      simp only at hcount ⊢
      rw [← hcount, Nat.add_sub_cancel]

theorem tokenize_eq_ok_iff {t : Text} {ts : List Token} :
    tokenize t = .ok ts ↔ scan 1 t = (ts, []) := by
  rw [tokenize_eq]
  cases hscan : scan 1 t with
  | mk us last => cases last <;> simp

theorem tokenize_append_newline {t : Text} {ts : List Token} (h : tokenize t = .ok ts) (u : Text) :
    tokenize (t ++ Text.newline :: u) =
      relocate (· + (1 + t.countNewlines))
        (fun us => ts ++ us.map (mapLines (· + (1 + t.countNewlines)))) (tokenize u) := by
  have hscan := tokenize_eq_ok_iff.1 h
  have hlast : (Piece.all t).2 = [] := congrArg Prod.snd hscan
  have hcuts := Piece.cuts_all t
  rw [hlast] at hcuts
  have hboth := scan_append_newline hcuts rfl 1 u
  rw [Nat.add_assoc, Nat.add_comm t.countNewlines, scan_add, hscan] at hboth
  have hcount : Text.countNewlines (t ++ Text.newline :: u) =
      1 + t.countNewlines + u.countNewlines := by
    simp [Text.countNewlines]
    omega
  have hend := countNewlines_all u
  rw [tokenize_eq, tokenize_eq u, hboth, hcount]
  cases hlast : scan 1 u with
  | mk us last =>
      cases last with
      | nil => rfl
      | cons c r =>
          have hr : (Piece.all u).2 = c :: r := congrArg Prod.snd hlast
          rw [hr] at hend
          simp only [relocate, ReadError.mapLines]
          congr 2
          omega

end Token

namespace Form

/-- Before and after a line feed, texts are read apart: the second has its lines, and the
line of its failure, moved down by the lines of the first. -/
theorem readAll_append_newline {features : List Text} {t : Text} {fs : List Form}
    (h : readAll features t = .ok fs) (u : Text) :
    readAll features (t ++ Text.newline :: u) =
      match readAll features u with
      | .ok gs => .ok (fs ++ gs.map (mapLines (· + (1 + t.countNewlines))))
      | .error e => .error (e.mapLines (· + (1 + t.countNewlines))) := by
  obtain ⟨ts, hts, hfs⟩ := exists_of_bind_eq_ok h
  have htokens := Token.tokenize_append_newline hts u
  have hforms := Reader.readTokens_append (· + (1 + t.countNewlines)) hfs
  calc
    _ = relocate (· + (1 + t.countNewlines))
          (fun gs => fs ++ gs.map (mapLines (· + (1 + t.countNewlines)))) (readAll features u) := by
        rw [readAll, htokens]
        exact relocate_bind hforms (Token.tokenize u)
    _ = _ := by cases readAll features u <;> rfl

/-- A comment at the end of the first text, and a second text that fails. -/
theorem readAll_comment_then_unclosed :
    readAll [] "(a\n\\o) ; c" = .ok [.coll .list 1 [ofName "a", .char "o"]] ∧
      readAll [] ("(a\n\\o) ; c" ++ Text.newline :: "^b\n(") = .error (.unclosed 4) := by
  have hfirst : Piece.Cuts "(a\n\\o) ; c" _ [] :=
    .piece rfl (.piece rfl (.piece rfl (.piece rfl (.piece rfl (.piece rfl (.piece rfl (.done _)))))))
  have hsecond : Piece.Cuts "^b\n(" _ [] :=
    .piece rfl (.piece rfl (.piece rfl (.piece rfl (.done _))))
  have hread : readAll [] "(a\n\\o) ; c" = .ok [.coll .list 1 [ofName "a", .char "o"]] := by
    rw [readAll, Token.tokenize_of_cuts hfirst]
    rfl
  have hboth := readAll_append_newline hread "^b\n("
  rw [readAll.eq_def [] "^b\n(", Token.tokenize_of_cuts hsecond] at hboth
  exact ⟨hread, hboth⟩

end Form

end Docsmith
