import Docsmith.Proofs.Descent
import Docsmith.Proofs.Erasure

/-!
# Causes of failures

A text is not read because its tokens do not make up forms, which shows on one of its lines, or
because of the length of an integer: that of a decimal numeral, or that of an integer in a form
that names an entry of metadata.
-/

namespace Docsmith

namespace Form

variable {features : List Text}

theorem line?_of_selectBranch {splice : Bool} {line : Nat} {branches : List (Form × Form)}
    {e : ReadError} (h : selectBranch features splice line branches = .error e) :
    e.line? = some line := by
  induction branches with
  | nil => cases h
  | cons branch branches ih =>
      obtain ⟨key, form⟩ := branch
      cases key with
      | keyword name =>
          unfold selectBranch at h
          split at h
          · split at h
            · split at h <;> cases h
              rfl
            · cases h
          · exact ih h
      | _ =>
          cases h
          rfl

theorem line?_of_ofCollection {o : Opener} {line : Nat} {items : List Form} {e : ReadError}
    (h : ofCollection features o line items = .error e) : e.line? = some line := by
  cases o with
  | paren | bracket | setBrace | fnParen => cases h
  | brace =>
      rw [ofCollection] at h
      split at h <;> cases h
      rfl
  | conditional | splice =>
      rw [ofCollection] at h
      split at h
      · exact line?_of_selectBranch h
      · cases h
        rfl

theorem exists_of_ofAtom_eq_error {t : Text} {e : ReadError} (h : ofAtom t = .error e) :
    ∃ negative digits, decimalLiteral? t = some (negative, digits) ∧
      maxIntegerDigits < digits.length ∧ e = .integerTooLong digits.length := by
  cases hliteral : decimalLiteral? t with
  | none =>
      have hfits : ∀ negative digits, decimalLiteral? t = some (negative, digits) →
          digits.length ≤ maxIntegerDigits := by simp [hliteral]
      obtain ⟨f, hf⟩ := exists_ofAtom hfits
      rw [hf] at h
      cases h
  | some literal =>
      rw [ofAtom_of_decimalLiteral? hliteral] at h
      split at h
      case isTrue hlong =>
        cases h
        exact ⟨_, _, rfl, hlong, rfl⟩
      case isFalse => cases h

/-- As metadata the form names an entry by a key that cannot be written out. -/
def Unwritable (m : Form) : Prop :=
  ∃ line items, m = .coll .map line items ∧ ∃ entry ∈ pairs items, entry.1.nameable = false

theorem unwritable_of_toAttrs {m : Form} {e : ReadError} (h : m.toAttrs = .error e) :
    m.Unwritable ∧ e = .integerTooLongToWrite := by
  cases m with
  | coll shape line items =>
      cases shape with
      | map =>
          rw [toAttrs] at h
          by_cases hkeys : ∀ entry ∈ pairs items, entry.1.nameable = true
          · rw [attrsOfPairs_of_nameable hkeys] at h
            cases h
          · rw [attrsOfPairs_of_not_nameable hkeys] at h
            cases h
            exact ⟨⟨line, items, rfl, by simpa using hkeys⟩, rfl⟩
      | _ => cases h
  | _ => cases h

end Form

namespace Reader.Descent

variable {features : List Text} {ts : List Token}

/-- Why tokens are not read that lie on lines up to the last one.  The integers that are too long
have no line: a decimal numeral is too long to be read, and one in the metadata behind a mark, as
the name of an entry, is too long to be written. -/
inductive Cause (features : List Text) (ts : List Token) (last : Nat) : ReadError → Prop
  | onLine {e : ReadError} {line : Nat} (shown : e.line? = some line)
      (within : 1 ≤ line ∧ line ≤ last) : Cause features ts last e
  | numeral {text : Text} {line : Nat} {negative : Bool} {digits : List Nat}
      (atom : ⟨.atom text, line⟩ ∈ ts)
      (literal : Form.decimalLiteral? text = some (negative, digits))
      (long : Form.maxIntegerDigits < digits.length) :
      Cause features ts last (.integerTooLong digits.length)
  | name {i n line j : Nat} {m : Form} (mark : ts[i]? = some ⟨.hat, line⟩)
      (behind : one features ts n line (i + 1) = .ok (m, j)) (unwritable : m.Unwritable) :
      Cause features ts last .integerTooLongToWrite

/-! ## What can fail in a call -/

def FailsBy {α : Type} (cause : ReadError → Prop) (x : Except Halt α) : Prop :=
  ∀ e, x = .error (.failure e) → cause e

section

variable {α β : Type} {cause : ReadError → Prop}

theorem failsBy_ok (a : α) : FailsBy cause (.ok a) := nofun

theorem failsBy_failure {e : ReadError} (h : cause e) :
    FailsBy cause (.error (.failure e) : Except Halt α) := by
  rintro _ ⟨⟩
  exact h

theorem failsBy_exhausted : FailsBy cause (.error .exhausted : Except Halt α) := nofun

theorem failsBy_checked {x : Except ReadError α} (h : ∀ e, x = .error e → cause e) :
    FailsBy cause (checked x) := by
  cases x with
  | error e => exact failsBy_failure (h e rfl)
  | ok a => exact failsBy_ok a

theorem failsBy_lookup (names : Table Text Text) (name : Text) :
    FailsBy cause (lookup names name) := by
  unfold lookup
  cases names.get? name <;> nofun

theorem failsBy_tokenAt (ts : List Token) (i : Nat) : FailsBy cause (tokenAt ts i) := by
  unfold tokenAt
  cases ts[i]? <;> nofun

theorem FailsBy.bind {x : Except Halt α} {next : α → Except Halt β} (hx : FailsBy cause x)
    (hnext : ∀ a, x = .ok a → FailsBy cause (next a)) : FailsBy cause (x >>= next) := by
  cases x with
  | error halt =>
      rintro e ⟨⟩
      exact hx e rfl
  | ok a => exact hnext a rfl

end

/-! ## Every failure has a cause -/

structure Explained (features : List Text) (ts : List Token) (last n : Nat) : Prop where
  item (i : Nat) : FailsBy (Cause features ts last) (item features ts n i)
  one {line : Nat} (within : 1 ≤ line ∧ line ≤ last) (i : Nat) :
    FailsBy (Cause features ts last) (one features ts n line i)
  items {line : Nat} (within : 1 ≤ line ∧ line ≤ last) (close : Text) (fs : List Form) (i : Nat) :
    FailsBy (Cause features ts last) (items features ts n close line fs i)

section

variable {last n line : Nat}

theorem failsBy_ofCollection (within : 1 ≤ line ∧ line ≤ last) (o : Opener) (inner : List Form) :
    FailsBy (Cause features ts last) (checked (Form.ofCollection features o line inner)) :=
  failsBy_checked fun _ he => .onLine (Form.line?_of_ofCollection he) within

theorem failsBy_toAttrs {i j : Nat} {m : Form} (mark : ts[i]? = some ⟨.hat, line⟩)
    (behind : one features ts n line (i + 1) = .ok (m, j)) :
    FailsBy (Cause features ts last) (checked m.toAttrs) := by
  refine failsBy_checked fun e he => ?_
  obtain ⟨hm, rfl⟩ := Form.unwritable_of_toAttrs he
  exact .name mark behind hm

theorem failsBy_ofAtom {text : Text} (atom : ⟨.atom text, line⟩ ∈ ts) :
    FailsBy (Cause features ts last) (checked (Form.ofAtom text)) := by
  refine failsBy_checked fun e he => ?_
  obtain ⟨negative, digits, hliteral, hlong, rfl⟩ := Form.exists_of_ofAtom_eq_error he
  exact .numeral atom hliteral hlong

theorem within_of_tokenAt (hlines : ∀ t ∈ ts, 1 ≤ t.line ∧ t.line ≤ last) {i : Nat} {t : Token}
    (h : tokenAt ts i = .ok t) : 1 ≤ t.line ∧ t.line ≤ last :=
  hlines t (List.mem_of_getElem? (tokenAt_eq_ok_iff.1 h))

theorem explained_item (hlines : ∀ t ∈ ts, 1 ≤ t.line ∧ t.line ≤ last)
    (ih : Explained features ts last n) (i : Nat) :
    FailsBy (Cause features ts last) (item features ts (n + 1) i) := by
  rw [item]
  refine (failsBy_tokenAt ts i).bind fun t ht => ?_
  have hline := within_of_tokenAt hlines ht
  have hmem := tokenAt_eq_ok_iff.1 ht
  obtain ⟨l, line⟩ := t
  cases l with
  | opener o =>
      refine (failsBy_lookup _ _).bind fun close _ => ?_
      refine (ih.items hline close [] (i + 1)).bind ?_
      rintro ⟨inner, j⟩ -
      exact (failsBy_ofCollection hline o inner).bind fun _ _ => failsBy_ok _
  | closer c => exact failsBy_failure (.onLine rfl hline)
  | str | regex | char => exact failsBy_ok _
  | discard => exact (ih.one hline (i + 1)).bind fun _ _ => failsBy_ok _
  | hat =>
      refine (ih.one hline (i + 1)).bind ?_
      rintro ⟨m, j⟩ hone
      refine (failsBy_toAttrs hmem hone).bind fun attrs _ => ?_
      exact (ih.one hline j).bind fun _ _ => failsBy_ok _
  | quote q =>
      refine (ih.one hline (i + 1)).bind ?_
      rintro ⟨f, j⟩ -
      exact (failsBy_lookup _ _).bind fun _ _ => failsBy_ok _
  | atom text =>
      simp only
      split
      · exact failsBy_ok _
      · split
        · exact (ih.one hline (i + 1)).bind fun _ _ => failsBy_ok _
        · exact (failsBy_ofAtom (List.mem_of_getElem? hmem)).bind fun _ _ => failsBy_ok _

theorem explained_one (hlines : ∀ t ∈ ts, 1 ≤ t.line ∧ t.line ≤ last)
    (ih : Explained features ts last n) (within : 1 ≤ line ∧ line ≤ last) (i : Nat) :
    FailsBy (Cause features ts last) (one features ts (n + 1) line i) := by
  rw [one]
  split
  · exact failsBy_failure (.onLine rfl within)
  · refine (failsBy_tokenAt ts i).bind fun t ht => ?_
    split
    · exact failsBy_failure (.onLine rfl (within_of_tokenAt hlines ht))
    · refine (ih.item i).bind ?_
      rintro ⟨fs, j⟩ -
      cases fs with
      | nil => exact ih.one within j
      | cons f fs => exact failsBy_ok _

theorem explained_items (hlines : ∀ t ∈ ts, 1 ≤ t.line ∧ t.line ≤ last)
    (ih : Explained features ts last n) (within : 1 ≤ line ∧ line ≤ last)
    (close : Text) (fs : List Form) (i : Nat) :
    FailsBy (Cause features ts last) (items features ts (n + 1) close line fs i) := by
  rw [items]
  split
  · exact failsBy_failure (.onLine rfl within)
  · refine (failsBy_tokenAt ts i).bind fun t ht => ?_
    split
    · split
      · exact failsBy_ok _
      · exact failsBy_failure (.onLine rfl (within_of_tokenAt hlines ht))
    · refine (ih.item i).bind ?_
      rintro ⟨more, j⟩ -
      exact ih.items within close (fs ++ more) j

theorem explained (hlines : ∀ t ∈ ts, 1 ≤ t.line ∧ t.line ≤ last) (n : Nat) :
    Explained features ts last n := by
  induction n with
  | zero =>
      refine ⟨fun i => ?_, fun _ i => ?_, fun _ close fs i => ?_⟩
      · rw [item]
        exact failsBy_exhausted
      · rw [one]
        exact failsBy_exhausted
      · rw [items]
        exact failsBy_exhausted
  | succ n ih =>
      exact ⟨explained_item hlines ih, explained_one hlines ih, explained_items hlines ih⟩

theorem explained_all (hlines : ∀ t ∈ ts, 1 ≤ t.line ∧ t.line ≤ last) (fs : List Form) (i : Nat) :
    FailsBy (Cause features ts last) (all features ts n fs i) := by
  induction n generalizing fs i with
  | zero =>
      rw [all]
      exact failsBy_exhausted
  | succ n ih =>
      rw [all]
      split
      · exact failsBy_ok _
      · refine (failsBy_tokenAt ts i).bind fun t ht => ?_
        split
        · exact failsBy_failure (.onLine rfl (within_of_tokenAt hlines ht))
        · refine ((explained hlines n).item i).bind ?_
          rintro ⟨more, j⟩ -
          exact ih (fs ++ more) j

end

theorem within_of_mem_lexemes {t : Text} {u : Token} (h : u ∈ Token.lexemes t) :
    1 ≤ u.line ∧ u.line ≤ 1 + t.countNewlines := by
  obtain ⟨⟨i, p⟩, -, hp⟩ := List.mem_filterMap.1 h
  cases p with
  | lexeme l =>
      cases hp
      exact ⟨Nat.le_add_right 1 _, t.lineAt_le i⟩
  | _ => cases hp

theorem line_of_tokenize {t : Text} {e : ReadError} (h : Token.tokenize t = .error e) :
    ∃ i, e.line? = some (t.lineAt i) := by
  rw [Token.tokenize_eq_lexemes] at h
  split at h <;> cases h
  exact ⟨_, rfl⟩

theorem failsBy_readAll (features : List Text) (n : Nat) (t : Text) :
    FailsBy (Cause features (Token.lexemes t) (1 + t.countNewlines)) (readAll features n t) := by
  have htokens : FailsBy (Cause features (Token.lexemes t) (1 + t.countNewlines))
      (checked (Token.tokenize t)) := by
    refine failsBy_checked fun e he => ?_
    obtain ⟨i, hline⟩ := line_of_tokenize he
    exact .onLine hline ⟨Nat.le_add_right 1 _, t.lineAt_le i⟩
  refine htokens.bind fun ts hts => ?_
  obtain rfl := Token.eq_lexemes_of_tokenize (checked_eq_ok_iff.1 hts)
  exact explained_all (fun u hu => within_of_mem_lexemes hu) [] 0

/-- Every call that returns has come to a place behind its own, and not beyond the tokens.  If as
many calls may be open as there are tokens, twice and one more, then reading by descent comes to its
end and reads as the stack does.  It ends early only by a failure, never for want of a token or of
an entry, and the failure has its cause. -/
theorem calls_advance_and_fail_by_cause (features : List Text) (t : Text) :
    (∀ n i fs j, item features (Token.lexemes t) n i = .ok (fs, j) →
      i < j ∧ j ≤ (Token.lexemes t).length) ∧
    ∀ n, 2 * (Token.lexemes t).length < n →
      readAll features n t = checked (Form.readAll features t) ∧
      ∀ halt, readAll features n t = .error halt →
        ∃ e, halt = .failure e ∧
          Cause features (Token.lexemes t) (1 + t.countNewlines) e := by
  refine ⟨fun n i fs j h => (advance features (Token.lexemes t) n).item h, fun n hn => ?_⟩
  have hall := readAll_eq features hn
  refine ⟨hall, fun halt hhalt => ?_⟩
  cases hread : Form.readAll features t with
  | ok fs =>
      rw [hall, hread] at hhalt
      cases hhalt
  | error e =>
      rw [hread] at hall
      obtain rfl : .failure e = halt := Except.error.inj (hall.symm.trans hhalt)
      exact ⟨e, rfl, failsBy_readAll features n t e hall⟩

theorem tokenize_vector_before_closer :
    Token.tokenize "[a] )" = .ok [⟨.opener .bracket, 1⟩, ⟨.atom "a", 1⟩, ⟨.closer .bracket, 1⟩,
      ⟨.closer .paren, 1⟩] := by
  have hcuts : Piece.Cuts "[a] )" _ [] :=
    .piece rfl (.piece rfl (.piece rfl (.piece rfl (.piece rfl (.done _)))))
  exact Token.tokenize_of_cuts hcuts

theorem vector_before_closer :
    ∃ fs, item [] (Token.lexemes "[a] )") 3 0 = .ok (fs, 3) ∧
      (0 < 3 ∧ 3 ≤ (Token.lexemes "[a] )").length) ∧
      ∃ e, readAll [] 9 "[a] )" = .error (.failure e) ∧
        Cause [] (Token.lexemes "[a] )") (1 + Text.countNewlines "[a] )") e := by
  have htokens := tokenize_vector_before_closer
  obtain ⟨hadvance, hfails⟩ := calls_advance_and_fail_by_cause [] "[a] )"
  rw [← Token.eq_lexemes_of_tokenize htokens] at hadvance hfails ⊢
  have hitem := hadvance 3 0 [.coll .vector 1 [Form.ofName "a"]] 3 rfl
  have hread : readAll [] 9 "[a] )" = .error (.failure (.unmatched .paren 1)) := by
    rw [readAll, htokens]
    rfl
  obtain ⟨e, he, hcause⟩ := (hfails 9 (by decide)).2 _ hread
  cases he
  exact ⟨_, rfl, hitem, _, hread, hcause⟩

/-! ## Names that cannot be written -/

/-- A symbol with metadata that name an entry by what is read from the text. -/
def entryNamed (t : Text) : Text := "^\x7b" ++ (t ++ Text.ofString " 1\x7d x")

theorem tokenize_entryNamed {t : Text} (plain : Piece.PlainAtom t) :
    Token.tokenize (entryNamed t) = .ok [⟨.hat, 1⟩, ⟨.opener .brace, 1⟩, ⟨.atom t, 1⟩,
      ⟨.atom "1", 1⟩, ⟨.closer .brace, 1⟩, ⟨.atom "x", 1⟩] := by
  have hatom : Piece.next? (t ++ Text.ofString " 1\x7d x") =
      some (.lexeme (.atom t), Text.ofString " 1\x7d x") :=
    Piece.next?_atom plain (Piece.boundary_cons (by decide) "1\x7d x")
  have hcuts : Piece.Cuts (entryNamed t) [.lexeme .hat, .lexeme (.opener .brace), .lexeme (.atom t),
      .blank " ", .lexeme (.atom "1"), .lexeme (.closer .brace), .blank " ", .lexeme (.atom "x")]
      [] :=
    .piece rfl (.piece rfl (.piece hatom (.piece rfl (.piece rfl (.piece rfl (.piece rfl
      (.piece rfl (.done _))))))))
  have hnewlines : t.countNewlines = 0 := by
    refine List.countP_eq_zero.2 fun c hc hnewline => ?_
    have hatom := plain.atoms c hc
    rw [of_decide_eq_true hnewline] at hatom
    exact absurd hatom (by decide)
  have htokens : Token.tokenize (entryNamed t) = .ok [⟨.hat, 1⟩, ⟨.opener .brace, 1⟩, ⟨.atom t, 1⟩,
      ⟨.atom "1", 1 + t.countNewlines⟩, ⟨.closer .brace, 1 + t.countNewlines⟩,
      ⟨.atom "x", 1 + t.countNewlines⟩] := Token.tokenize_of_cuts hcuts
  rwa [hnewlines] at htokens

theorem readAll_entryNamed {t : Text} {n : Int} (features : List Text)
    (plain : Piece.PlainAtom t) (reads : Form.ofAtom t = .ok (.int n)) :
    Form.readAll features (entryNamed t) =
      Form.attrName (.int n) >>= fun name => .ok [.symbol "x" [(name, .int 1)]] := by
  have hsign : t.head? ≠ some (CodePoint.ofChar '#') := fun hhead =>
    plain.start _ hhead (by decide)
  rw [Form.readAll, tokenize_entryNamed plain]
  change run features ⟨[], [.gather .brace 1 [], .await .attrs 1]⟩ (⟨.atom t, 1⟩ :: _) >>= finish = _
  rw [run_cons, step_of_denotes (.atom hsign reads)]
  change run features ⟨[], [.gather .brace 1 [.int 1, .int n], .await .attrs 1]⟩
    [⟨.closer .brace, 1⟩, ⟨.atom "x", 1⟩] >>= finish = _
  rw [run_cons, Form.step_closeEntry]
  cases Form.attrName (.int n) <;> rfl

/-- No numeral of this text is too long to be read, but the integer is too long to be written. -/
theorem name_too_long :
    (entryNamed (Form.largest 3600)).length < Form.maxIntegerDigits ∧
      Form.readAll [Text.ofString "clj"] (entryNamed (Form.largest 3600)) =
        .error .integerTooLongToWrite ∧
      ReadError.line? .integerTooLongToWrite = none := by
  refine ⟨?_, ?_, rfl⟩
  · have hnumeral : (Form.largest 3600).length = 3600 + 2 := by
      rw [Form.largest, List.length_cons, List.length_cons, List.length_replicate]
    rw [entryNamed, List.length_append, List.length_append, hnumeral]
    decide
  · have hlong : Form.nameable (.int (Text.foldDigits 16 (List.replicate 3600 15) : Nat)) = false :=
      Form.integerFits_largest
    have hname := Form.attrName_of_not_nameable hlong
    rw [readAll_entryNamed _ (Form.plainAtom_largest 3600) (Form.ofAtom_largest 3599), hname]
    rfl

end Reader.Descent

end Docsmith
