import Docsmith.Pipeline.Selection
import Docsmith.Proofs.Expansion
import Docsmith.Proofs.Openings
import Docsmith.Proofs.RoundTrip
import Docsmith.Value.OfForm

/-!
# Literals of patterns

A pattern that is read ends at the first quotation mark that no backslash escapes, while a text
that is taken for a literal ends at its last one.  For a pattern that was read, both cut off the
same source.  So it makes no difference whether the pattern is given as data, as a literal in a
text, or as a source in a mapping.
-/

namespace Docsmith

/-! ## Patterns that are read -/

namespace Form

open Grammar

/-- No pattern in the form, or in metadata in it, has a quotation mark that is not escaped. -/
def Quoted (f : Form) : Prop := ∀ source, Holds (.regex source) f → Piece.Quotable source

theorem quoted_ofName (name : Text) : Quoted (ofName name) := by
  intro source h
  cases h with
  | attr mem => cases mem

theorem quoted_of_denotes {l : Lexeme} {f : Form} (valid : Piece.Valid l) (h : Denotes l f) :
    Quoted f := by
  cases h with
  | str | char => nofun
  | regex body =>
      intro source h
      cases h
      exact valid
  | special name => exact quoted_ofName name
  | atom _ reads =>
      cases spells_of_ofAtom reads with
      | name => exact quoted_ofName _
      | _ => nofun

theorem inherited_quoted : Inherited Quoted where
  name q := quoted_ofName q.symbolName
  coll line _ h := by
    intro source hholds
    cases hholds with
    | item mem holds => exact h _ mem source holds
  item h := fun f hf source hholds => h source (.item hf hholds)
  annotate hm hf := by
    intro source hholds
    rcases holds_of_holds_annotate hholds rfl nofun nofun with hholds | hholds
    · exact hm source hholds
    · exact hf source hholds

theorem quoted_of_readAll {features : List Text} {t : Text} {fs : List Form}
    (h : readAll features t = .ok fs) : ∀ f ∈ fs, Quoted f := by
  obtain ⟨ts, hts, hread⟩ := exists_of_bind_eq_ok h
  exact (Reader.derives_of_readTokens hread).forall_of_inherited inherited_quoted
    fun tok htok _ hdenotes => quoted_of_denotes (Token.valid_of_tokenize hts tok htok) hdenotes

theorem readAll_render_regex {source : Text} (h : Piece.Quotable source) (features : List Text) :
    readAll features (Form.regex source).render = .ok [.regex source] := by
  obtain ⟨f, hread, hbare⟩ : ∃ f, readAll features (Form.regex source).render = .ok [f] ∧
      f.bare = (Form.regex source).bare := exists_readAll_render (.regex h)
  cases f <;> cases hbare
  exact hread

end Form

/-! ## Ways to give a pattern -/

/-- What is between the marks of a literal is its source, whatever the source is. -/
theorem regexLiteral?_render (source : Text) :
    regexLiteral? (Form.regex source).render = some source := by
  have hquote : Text.endsWith (source ++ "\"") "\"" = true :=
    List.isSuffixOf_iff_suffix.2 (List.suffix_append _ _)
  rw [Form.render, List.append_assoc, regexLiteral?, Text.after?_append]
  simp only [hquote, if_true]
  exact congrArg some (List.dropLast_concat)

namespace Selector

variable {source : Text}

theorem exclusionOfValue_literal (source : Text) :
    exclusionOfValue (.str (Form.regex source).render) = (compileRegex source).map some := by
  rw [exclusionOfValue, regexLiteral?_render]
  rfl

theorem ofValue_literal (source : Text) :
    ofValue (.str (Form.regex source).render) = (compileRegex source).map .regex := by
  simp only [ofValue, regexLiteral?_render]

theorem ofValue_mapping {d : Dict} (h : Dict.getText? d "regex" = some (.str source)) :
    ofValue (.dict d) = (compileRegex source).map .regex := by
  simp only [ofValue, h]

end Selector

/-- However a pattern that was read is given, it comes to one expression or to one fault, and its
literal is cut alike by those who read it as data and those who take it as a text. -/
theorem pattern_given_alike {features : List Text} {t source : Text} {fs : List Form} {f : Form}
    (h : Form.readAll features t = .ok fs) (hf : f ∈ fs) (holds : Form.Holds (.regex source) f) :
    ((∃ r, Regex.compilePosix source = .ok r ∧
        (Form.regex source).toValue = .ok (.regex r) ∧
        Selector.exclusionOfValue (.str (Form.regex source).render) = .ok (some r) ∧
        Selector.ofValue (.str (Form.regex source).render) = .ok (.regex r) ∧
        ∀ d, Dict.getText? d "regex" = some (.str source) →
          Selector.ofValue (.dict d) = .ok (.regex r)) ∨
      ∃ fault, Regex.compilePosix source = .error fault ∧
        (Form.regex source).toValue = .error (.pattern fault) ∧
        Selector.exclusionOfValue (.str (Form.regex source).render) = .error (.regex fault) ∧
        Selector.ofValue (.str (Form.regex source).render) = .error (.regex fault) ∧
        ∀ d, Dict.getText? d "regex" = some (.str source) →
          Selector.ofValue (.dict d) = .error (.regex fault)) ∧
    regexLiteral? (Form.regex source).render = some source ∧
    (∀ rest, Piece.next? ((Form.regex source).render ++ rest) =
      some (.lexeme (.regex source), rest)) ∧
    ∀ features', Form.readAll features' (Form.regex source).render = .ok [.regex source] := by
  have quotable := Form.quoted_of_readAll h f hf source holds
  refine ⟨?_, regexLiteral?_render source, Piece.next?_regex quotable,
    Form.readAll_render_regex quotable⟩
  rw [Selector.exclusionOfValue_literal, Selector.ofValue_literal, Form.toValue,
    Selector.compileRegex]
  cases hcompile : Regex.compilePosix source with
  | ok r =>
      refine .inl ⟨r, rfl, rfl, rfl, rfl, fun d hd => ?_⟩
      rw [Selector.ofValue_mapping hd, Selector.compileRegex, hcompile]
      rfl
  | error fault =>
      refine .inr ⟨fault, rfl, rfl, rfl, rfl, fun d hd => ?_⟩
      rw [Selector.ofValue_mapping hd, Selector.compileRegex, hcompile]
      rfl

def quotedText : Text := "[#\"a\\\"\\\\\" #\"(\"]"

theorem readAll_quotedText :
    Form.readAll [] quotedText = .ok [.coll .vector 1 [.regex "a\\\"\\\\", .regex "("]] := by
  have htokens : Token.tokenize quotedText = .ok [⟨.opener .bracket, 1⟩, ⟨.regex "a\\\"\\\\", 1⟩,
      ⟨.regex "(", 1⟩, ⟨.closer .bracket, 1⟩] := by decide +kernel
  rw [Form.readAll, htokens]
  rfl

theorem pattern_given_alike_quotedText :
    (∃ r, (Form.regex "a\\\"\\\\").toValue = .ok (.regex r) ∧
      Selector.exclusionOfValue (.str "#\"a\\\"\\\\\"") = .ok (some r) ∧
      Selector.ofValue (.str "#\"a\\\"\\\\\"") = .ok (.regex r) ∧
      Selector.ofValue (.dict [(.str "regex", .str "a\\\"\\\\")]) = .ok (.regex r)) ∧
    ∃ fault, (Form.regex "(").toValue = .error (.pattern fault) ∧
      Selector.exclusionOfValue (.str "#\"(\"") = .error (.regex fault) ∧
      Selector.ofValue (.str "#\"(\"") = .error (.regex fault) ∧
      Selector.ofValue (.dict [(.str "regex", .str "(")]) = .error (.regex fault) := by
  have hcompiles : (Regex.compilePosix "a\\\"\\\\").isOk = true := by decide +kernel
  have hrefused : (Regex.compilePosix "(").isOk = false := by decide +kernel
  constructor
  · obtain ⟨⟨r, -, hdata, hexclusion, hselector, hmapping⟩ | ⟨fault, hfault, -⟩, -⟩ :=
      pattern_given_alike readAll_quotedText List.mem_cons_self (.item List.mem_cons_self .self)
    · exact ⟨r, hdata, hexclusion, hselector, hmapping _ rfl⟩
    · rw [hfault] at hcompiles
      cases hcompiles
  · obtain ⟨⟨r, hok, -⟩ | ⟨fault, -, hdata, hexclusion, hselector, hmapping⟩, -⟩ :=
      pattern_given_alike readAll_quotedText List.mem_cons_self
        (.item (List.mem_of_getElem? (i := 1) rfl) .self)
    · rw [hok] at hrefused
      cases hrefused
    · exact ⟨fault, hdata, hexclusion, hselector, hmapping _ rfl⟩

end Docsmith
