import Docsmith.Proofs.Conditionals
import Docsmith.Proofs.Nesting

/-!
# Forms that are read back hold no marks

A name may look like a mark, and then its text is read as something else.  No such name is in
a form that is read back: it could only come from a longer name of this kind.  So the text of
the form is cut into delimiters, literals and plain atoms, and what is read from these carries
no metadata and no integer that is too long to be written.
-/

namespace Docsmith

open Reader Grammar

namespace Token

theorem mem_all_of_mem_lex {t : Text} {tok : Token} (h : tok ∈ (lex t).1) :
    .lexeme tok.lexeme ∈ (Piece.all t).1 := by
  obtain ⟨own, hown, rfl⟩ := List.mem_map.1 h
  change Piece.lexeme own.lexeme ∈ _
  exact mem_of_mem_ofPieces hown

theorem valid_of_mem_lex {t : Text} {tok : Token} (h : tok ∈ (lex t).1) :
    Piece.Valid tok.lexeme :=
  (Piece.isCut_of_cuts (Piece.cuts_all t) _ (mem_all_of_mem_lex h)).valid

theorem length_le_of_mem_lex {t : Text} {tok : Token} (h : tok ∈ (lex t).1) :
    tok.lexeme.text.length ≤ t.length := by
  obtain ⟨before, after, hsplit⟩ := List.append_of_mem (mem_all_of_mem_lex h)
  have htext := congrArg List.length (Piece.cuts_all t).text_append
  rw [hsplit] at htext
  simp only [List.flatMap_append, List.flatMap_cons, List.length_append, Piece.text] at htext
  omega

end Token

def Lexeme.Inert : Lexeme → Prop
  | .opener o => o.isConditional = false
  | .atom t => Piece.PlainAtom t
  | .discard | .quote _ | .hat => False
  | .closer _ | .str _ | .regex _ | .char _ => True

theorem Lexeme.not_inert_of_sign {t : Text} (h : t.head? = some (CodePoint.ofChar '#')) :
    ¬(Lexeme.atom t).Inert := fun plain => plain.start _ h (by decide)

namespace Form

/-! ## The tokens of a form -/

def tokens (f : Form) : List Token := (Token.lex f.render).1

theorem tokens_eq {f : Form} {ts : List Token} (h : Token.Scans f.render ts) : f.tokens = ts := by
  rw [tokens, h.lex_eq]

theorem tokens_bare (f : Form) : f.bare.tokens = f.tokens := by
  rw [tokens, tokens, render_bare]

theorem Legible.scans {f : Form} (h : Legible f) : Token.Scans f.render f.tokens := by
  obtain ⟨ts, hts⟩ := h.exists_scans
  rwa [tokens_eq hts]

theorem scans_items {items : List Form} (h : ∀ f ∈ items, Legible f) :
    Token.Scans (Text.join " " (renderItems items)) (items.flatMap tokens) := by
  induction items with
  | nil => exact Token.scans_nil
  | cons f items ih =>
      obtain ⟨hf, hitems⟩ := List.forall_mem_cons.1 h
      exact scans_join_cons hf.scans (ih hitems)

theorem tokens_coll {shape : Shape} {line : Nat} {items : List Form}
    (h : ∀ f ∈ items, Legible f) :
    (Form.coll shape line items).tokens =
      ⟨.opener (opener shape), 0⟩ ::
        (items.flatMap tokens ++ [⟨.closer (opener shape).closer, 0⟩]) := by
  apply tokens_eq
  rw [render_coll]
  exact (scans_items h).enclosed (isConditional_opener shape)

theorem tokens_subset_of_part {p f : Form} (part : Part p f) (h : Legible f) :
    p.tokens ⊆ f.tokens := by
  induction part with
  | self => exact List.Subset.refl _
  | item mem _ ih =>
      rw [tokens_coll h.item]
      intro tok htok
      have hitem := List.mem_flatMap.2 ⟨_, mem, ih (h.item _ mem) htok⟩
      simp [hitem]

theorem tokens_of_plainAtom {f : Form} (h : Piece.PlainAtom f.render) :
    f.tokens = [⟨.atom f.render, 0⟩] :=
  tokens_eq (Token.scans_leaf rfl fun _ hu => Piece.next?_atom h hu.boundary)

theorem inert_of_cut {f : Form} {l : Lexeme} (plain : l.isDelimiter = false) (inert : l.Inert)
    (cut : ∀ u, Piece.Ends u → Piece.next? (f.render ++ u) = some (.lexeme l, u)) :
    ∀ tok ∈ f.tokens, tok.lexeme.Inert := by
  rw [tokens_eq (Token.scans_leaf plain cut)]
  exact List.forall_mem_singleton.2 inert

theorem inert_of_plainAtom {f : Form} (h : Piece.PlainAtom f.render) :
    ∀ tok ∈ f.tokens, tok.lexeme.Inert :=
  inert_of_cut (l := .atom f.render) rfl h fun _ hu => Piece.next?_atom h hu.boundary

theorem Legible.inert_of_isLeaf {f : Form} (h : Legible f) (leaf : f.isLeaf = true)
    (named : ∀ name attrs, f = .symbol name attrs → Piece.PlainAtom name) :
    ∀ tok ∈ f.tokens, tok.lexeme.Inert := by
  cases f with
  | nil => exact inert_of_plainAtom (Unmarked.plainAtom (by decide) (by decide))
  | bool b => cases b <;> exact inert_of_plainAtom (Unmarked.plainAtom (by decide) (by decide))
  | int n => exact inert_of_plainAtom (plainAtom_ofInt n)
  | float x => exact inert_of_plainAtom (plainAtom_text x)
  | symbol name attrs => exact inert_of_plainAtom (named name attrs rfl)
  | keyword name =>
      cases h with
      | run atoms => exact inert_of_plainAtom (plainAtom_keyword (List.forall_mem_cons.1 atoms).2)
  | str s =>
      exact inert_of_cut (l := .str (escape s)) rfl trivial fun u _ =>
        Piece.next?_str (quotable_escape s) u
  | regex source =>
      cases h with
      | run atoms =>
          have hquote := atoms (CodePoint.ofChar '"') (by simp [render, Text.ofString])
          exact absurd hquote (by decide)
      | regex quotable =>
          exact inert_of_cut (l := .regex source) rfl trivial fun u _ =>
            Piece.next?_regex quotable u
  | char name =>
      cases h with
      | run atoms => exact absurd (List.forall_mem_cons.1 atoms).1 (by decide)
      | char named =>
          exact inert_of_cut (l := .char name) rfl trivial fun u hu =>
            Piece.next?_char named hu.boundary
  | coll => cases leaf

theorem isLeaf_of_atoms {f : Form} (h : ∀ c ∈ f.render, c.isAtom = true) : f.isLeaf = true := by
  cases f with
  | coll shape line items =>
      rw [render, brackets_eq] at h
      obtain ⟨-, hcloser⟩ := List.forall_mem_append.1 h
      cases shape <;> exact absurd (hcloser _ (List.mem_singleton.2 rfl)) (by decide)
  | _ => rfl

/-- A token that is not inert belongs to a name that looks like a mark. -/
theorem Legible.inert_or_exists_name {f : Form} (h : Legible f) {tok : Token}
    (htok : tok ∈ f.tokens) :
    tok.lexeme.Inert ∨ ∃ name attrs, Part (.symbol name attrs) f ∧ ¬Piece.PlainAtom name ∧
      tok.lexeme.text.length ≤ name.length := by
  have hleaf {f : Form} (h : Legible f) (leaf : f.isLeaf = true) {tok : Token}
      (htok : tok ∈ f.tokens) : tok.lexeme.Inert ∨ ∃ name attrs, Part (.symbol name attrs) f ∧
        ¬Piece.PlainAtom name ∧ tok.lexeme.text.length ≤ name.length := by
    by_cases named : ∀ name attrs, f = .symbol name attrs → Piece.PlainAtom name
    · exact .inl (h.inert_of_isLeaf leaf named tok htok)
    · push Not at named
      obtain ⟨name, attrs, rfl, marked⟩ := named
      exact .inr ⟨name, attrs, .self, marked, Token.length_le_of_mem_lex htok⟩
  induction h generalizing tok with
  | run atoms => exact hleaf (.run atoms) (isLeaf_of_atoms atoms) htok
  | str s => exact hleaf (.str s) rfl htok
  | regex quotable => exact hleaf (.regex quotable) rfl htok
  | char named => exact hleaf (.char named) rfl htok
  | @coll shape items line legible ih =>
      rw [tokens_coll legible] at htok
      simp only [List.mem_cons, List.mem_append, List.mem_flatMap, List.not_mem_nil,
        or_false] at htok
      rcases htok with rfl | ⟨item, hitem, htok⟩ | rfl
      · exact .inl (isConditional_opener shape)
      · rcases ih item hitem htok with hinert | ⟨name, attrs, part, hname⟩
        · exact .inl hinert
        · exact .inr ⟨name, attrs, .item hitem part, hname⟩
      · exact .inl trivial

/-! ## Parts -/

theorem length_render_le_of_part {p f : Form} (part : Part p f) :
    p.render.length ≤ f.render.length := by
  have hitem {items : List Form} {f : Form} (h : f ∈ items) :
      f.render.length ≤ (Text.join " " (renderItems items)).length := by
    induction items with
    | nil => cases h
    | cons g items ih =>
        rcases List.mem_cons.1 h with rfl | h
        · cases items with
          | nil => exact Nat.le_refl _
          | cons => simp [renderItems, Text.join]
        · have hrest := ih h
          cases items with
          | nil => cases h
          | cons =>
              simp only [renderItems, Text.join, List.length_append] at hrest ⊢
              omega
  induction part with
  | self => exact Nat.le_refl _
  | item mem _ ih =>
      have hmem := hitem mem
      rw [render, List.length_append, List.length_append]
      omega

theorem part_bare {p f : Form} (part : Part p f) : Part p.bare f.bare := by
  induction part with
  | self => exact .self
  | item mem _ ih =>
      rw [bare_coll]
      exact .item (List.mem_map_of_mem mem) ih

theorem exists_part_of_bare {p f : Form} (part : Part p f.bare) :
    ∃ q, Part q f ∧ q.bare = p := by
  generalize hb : f.bare = b at part
  induction part generalizing f with
  | self => exact ⟨f, .self, hb⟩
  | item mem _ ih =>
      cases f with
      | coll shape line items =>
          rw [bare_coll] at hb
          cases hb
          obtain ⟨item, hitem, hbare⟩ := List.mem_map.1 mem
          obtain ⟨q, part, hq⟩ := ih hbare
          exact ⟨q, .item hitem part, hq⟩
      | _ => cases hb

/-! ## Names -/

def NamedBy (ts : List Token) (f : Form) : Prop :=
  ∀ name attrs, Part (.symbol name attrs) f →
    SymbolName name ∨ ∃ tok ∈ ts, tok.lexeme = .atom ("##" ++ name)

theorem inherited_namedBy (ts : List Token) : Inherited (NamedBy ts) where
  name q := by
    rintro _ _ ⟨⟩
    exact .inl (symbolName_quote q)
  coll line _ h := by
    rintro name attrs (_ | ⟨mem, part⟩)
    exact h _ mem name attrs part
  item h f hf name attrs part := h name attrs (.item hf part)
  annotate {m f} _ hf := by
    cases f with
    | symbol own attrs =>
        rintro _ _ ⟨⟩
        exact hf own attrs .self
    | _ => exact hf

theorem namedBy_of_denotes {ts : List Token} {tok : Token} (htok : tok ∈ ts)
    (valid : Piece.Valid tok.lexeme) {f : Form} (h : Denotes tok.lexeme f) : NamedBy ts f := by
  generalize hl : tok.lexeme = l at valid h
  cases h with
  | str | regex | char => exact nofun
  | special name =>
      rintro _ _ ⟨⟩
      exact .inr ⟨tok, htok, hl⟩
  | atom plain reads =>
      cases spells_of_ofAtom reads with
      | name named =>
          rintro _ _ ⟨⟩
          exact .inl ⟨valid.resolve_left plain, named⟩
      | _ => exact nofun

theorem Reads.tokens_eq {f g : Form} {ts : List Token} (h : Reads f g ts) : f.tokens = ts :=
  Form.tokens_eq h.scans

theorem Reads.namedBy {f g : Form} {ts : List Token} (h : Reads f g ts) : NamedBy ts g := by
  have hderives := derives_of_readTokens (h.reads [])
  have hvalid : ∀ tok ∈ ts, Piece.Valid tok.lexeme := fun tok htok =>
    Token.valid_of_mem_lex (h.tokens_eq ▸ htok : tok ∈ f.tokens)
  have hall := hderives.forall_of_inherited (inherited_namedBy ts)
    fun tok htok f hf => namedBy_of_denotes htok (hvalid tok htok) hf
  exact hall g (List.mem_singleton.2 rfl)

theorem Reads.inert_or_exists_name {f g : Form} {ts : List Token} (h : Reads f g ts)
    {tok : Token} (htok : tok ∈ ts) :
    tok.lexeme.Inert ∨ ∃ name attrs, Part (.symbol name attrs) g ∧ ¬Piece.PlainAtom name ∧
      tok.lexeme.text.length ≤ name.length := by
  rw [← h.tokens_eq, ← tokens_bare] at htok
  rcases h.legible.inert_or_exists_name htok with hinert | ⟨name, attrs, part, hname⟩
  · exact .inl hinert
  · rw [← h.bare] at part
    obtain ⟨q, hpart, hq⟩ := exists_part_of_bare part
    cases q with
    | symbol own ownAttrs =>
        cases hq
        exact .inr ⟨name, ownAttrs, hpart, hname⟩
    | coll =>
        rw [bare_coll] at hq
        cases hq
    | _ => cases hq

/-- All names in a form that is read back are read as names: one that is not would have to be
spelled out in a longer one. -/
theorem Reads.symbolName {f g : Form} {ts : List Token} (h : Reads f g ts) {name : Text}
    {attrs : Attrs} (part : Part (.symbol name attrs) g) : SymbolName name := by
  have hbound {name : Text} {attrs : Attrs} (part : Part (.symbol name attrs) g) :
      name.length ≤ g.render.length := length_render_le_of_part part
  induction hn : g.render.length - name.length using Nat.strong_induction_on
    generalizing name attrs with
  | _ n ih =>
      rcases h.namedBy name attrs part with hname | ⟨tok, htok, hlexeme⟩
      · exact hname
      · rcases h.inert_or_exists_name htok with hinert | ⟨longer, own, hpart, hmarked, hlength⟩
        · rw [hlexeme] at hinert
          exact absurd hinert (Lexeme.not_inert_of_sign rfl)
        · have hmore : longer.length ≤ g.render.length := hbound hpart
          have hsign : (Text.ofString "##").length = 2 := rfl
          rw [hlexeme, Lexeme.text, List.length_append] at hlength
          exact absurd (ih _ (by omega) hpart rfl).toPlainAtom hmarked

theorem Reads.inert {f g : Form} {ts : List Token} (h : Reads f g ts) :
    ∀ tok ∈ ts, tok.lexeme.Inert := by
  intro tok htok
  rcases h.inert_or_exists_name htok with hinert | ⟨name, attrs, part, marked, -⟩
  · exact hinert
  · exact absurd (h.symbolName part).toPlainAtom marked

/-! ## What is read from inert tokens -/

def Unannotated (f : Form) : Prop := ∀ name attrs, Part (.symbol name attrs) f → attrs = []

theorem unannotated_of_denotes {l : Lexeme} {f : Form} (h : Denotes l f) : f.Unannotated := by
  rintro name attrs part
  cases h with
  | str | regex | char => cases part
  | special => cases part; rfl
  | atom _ reads => cases spells_of_ofAtom reads <;> cases part; rfl

theorem unannotated_of_derives {features : List Text} {p : Phrase} {ts : List Token}
    {fs : List Form} (h : Derives features p ts fs) (inert : ∀ t ∈ ts, t.lexeme.Inert) :
    ∀ f ∈ fs, f.Unannotated := by
  induction h with
  | leaf line denotes => exact List.forall_mem_singleton.2 (unannotated_of_denotes denotes)
  | @delimited o ts fs gs line last closes _ ih =>
      obtain ⟨hopener, hrest⟩ := List.forall_mem_cons.1 inert
      have hitems := ih (List.forall_mem_append.1 hrest).1
      cases closes with
      | coll line opens even =>
          rintro _ (_ | ⟨_, ⟨⟩⟩) name attrs (_ | ⟨mem, part⟩)
          exact hitems _ mem name attrs part
      | conditional | splice | spliceNothing => cases hopener
  | discard | quote | annotated => exact (inert _ List.mem_cons_self).elim
  | tagged line sign =>
      exact absurd (inert _ List.mem_cons_self) (Lexeme.not_inert_of_sign sign)
  | nil => exact nofun
  | cons _ _ iht ihu =>
      obtain ⟨hts, hus⟩ := List.forall_mem_append.1 inert
      exact List.forall_mem_append.2 ⟨iht hts, ihu hus⟩
  | one _ _ _ ih =>
      obtain ⟨-, hus⟩ := List.forall_mem_append.1 inert
      exact List.forall_mem_singleton.2 (ih hus _ List.mem_cons_self)

theorem exists_ofAtom_of_run {features : List Text} {s u : State} {ts : List Token}
    (h : run features s ts = .ok u) {t : Text} (plain : t.head? ≠ some (CodePoint.ofChar '#'))
    {line : Nat} (ht : ⟨.atom t, line⟩ ∈ ts) : ∃ f, ofAtom t = .ok f := by
  induction ts generalizing s with
  | nil => cases ht
  | cons tok ts ih =>
      rw [run_cons] at h
      obtain ⟨v, hv, h⟩ := exists_of_bind_eq_ok h
      rcases List.mem_cons.1 ht with rfl | ht
      · simp only [step, plain, if_false] at hv
        split at hv
        case h_1 name hname =>
          rw [Text.eq_append_of_after? hname] at plain
          exact absurd rfl plain
        case h_2 =>
          obtain ⟨f, hf, -⟩ := exists_of_bind_eq_ok hv
          exact ⟨f, hf⟩
      · exact ih h ht

theorem Reads.bounded {f g : Form} {ts : List Token} (h : Reads f g ts) : g.Bounded := by
  intro n part
  have hpart : Part (.int n) f.bare := h.bare ▸ part_bare part
  have hplain := plainAtom_ofInt n
  have htok : ⟨.atom (Text.ofInt n), 0⟩ ∈ ts := by
    rw [← h.tokens_eq, ← tokens_bare]
    apply tokens_subset_of_part hpart h.legible
    rw [tokens_of_plainAtom (f := .int n) hplain]
    exact List.mem_singleton.2 rfl
  have hsign : (Text.ofInt n).head? ≠ some (CodePoint.ofChar '#') := fun hhead =>
    hplain.start _ hhead (by decide)
  obtain ⟨read, hread⟩ := exists_ofAtom_of_run (readTokens_eq_ok_iff.1 (h.reads [])) hsign htok
  exact integerFits_of_ofAtom hread

mutual
theorem labelable_of_bounded : (f : Form) → f.Unannotated → f.Bounded → f.labelable = true
  | .int n, _, bounded => bounded n .self
  | .symbol name attrs, plain, _ => by
      rw [plain name attrs .self]
      rfl
  | .coll _ _ items, plain, bounded => by
      rw [labelable]
      apply labelableItems_of_bounded items
      · exact fun f hf name attrs part => plain name attrs (.item hf part)
      · exact fun f hf => bounded.item hf
  | .nil, _, _ | .bool _, _, _ | .float _, _, _ | .str _, _, _ | .keyword _, _, _
  | .regex _, _, _ | .char _, _, _ => rfl

theorem labelableItems_of_bounded : (items : List Form) → (∀ f ∈ items, f.Unannotated) →
    (∀ f ∈ items, f.Bounded) → labelableItems items = true
  | [], _, _ => rfl
  | f :: fs, plain, bounded => by
      obtain ⟨hfirst, hplain⟩ := List.forall_mem_cons.1 plain
      obtain ⟨hfits, hbounded⟩ := List.forall_mem_cons.1 bounded
      rw [labelableItems, labelable_of_bounded f hfirst hfits,
        labelableItems_of_bounded fs hplain hbounded]
      rfl
end

/-- The tokens deliver the form that they are read as, to whatever waits for it. -/
theorem Reads.run_eq {f g : Form} {ts : List Token} (h : Reads f g ts) (features : List Text)
    (s : State) : run features s ts = deliver s.forms s.stack [g] :=
  run_of_readTokens (h.reads features) (.inr (Nat.le_refl 1))

theorem Reads.labelable {f g : Form} {ts : List Token} (h : Reads f g ts) :
    g.labelable = true := by
  have hplain := unannotated_of_derives (derives_of_readTokens (h.reads [])) h.inert
  exact labelable_of_bounded g (hplain g (List.mem_singleton.2 rfl)) h.bounded

/-! ## Metadata before a form -/

def annotatedText (ms : List Form) (t : Text) : Text :=
  ms.foldr (fun m rest => CodePoint.ofChar '^' :: (m.render ++ CodePoint.ofChar ' ' :: rest)) t

theorem scans_annotated {m : Form} {ts us : List Token} {t : Text} (hm : Token.Scans m.render ts)
    (ht : Token.Scans t us) : Token.Scans (annotatedText [m] t) (⟨.hat, 0⟩ :: (ts ++ us)) :=
  Token.scans_cons (hm.space ht) rfl fun _ _ => Piece.next?_of_begins (.single rfl rfl)

theorem run_annotated {m g f : Form} {ts us : List Token} (hm : Reads m g ts)
    {features : List Text} (hf : ∀ s, run features s us = deliver s.forms s.stack [f]) (s : State) :
    run features s (⟨.hat, 0⟩ :: (ts ++ us)) =
      deliver s.forms s.stack [f.annotate g.entries] := by
  apply performs_annotated 0 (toAttrs_of_labelable hm.labelable)
  · exact fun top wait line stack => hm.run_eq features ⟨top, .await wait line :: stack⟩
  · exact fun top wait line stack => hf ⟨top, .await wait line :: stack⟩

end Form

end Docsmith
