import Docsmith.Proofs.Acceptance
import Docsmith.Proofs.Locality
import Docsmith.Proofs.Spelling

/-!
# Reading undoes rendering

A form is rendered to a text that is cut into the tokens of that form alone, and from these
the grammar derives the form again, but for its lines and the metadata of its symbols.
Nearly all that is ever read is of this kind.
-/

namespace Docsmith

namespace Form

mutual
def bare : Form → Form
  | .symbol name _ => ofName name
  | .coll shape _ items => .coll shape 0 (bareItems items)
  | f => f

def bareItems : List Form → List Form
  | [] => []
  | f :: fs => bare f :: bareItems fs
end

theorem bareItems_eq (items : List Form) : bareItems items = items.map bare := by
  induction items with
  | nil => rfl
  | cons f fs ih => rw [bareItems, ih, List.map_cons]

@[simp] theorem bare_coll (shape : Shape) (line : Nat) (items : List Form) :
    bare (.coll shape line items) = .coll shape 0 (items.map bare) := by
  rw [bare, bareItems_eq]

def FloatFree (f : Form) : Prop := ∀ x, ¬Part (.float x) f

def Bounded (f : Form) : Prop := ∀ n, Part (.int n) f → integerFits n = true

/-- What a symbol may be called: an atom that is read as nothing else. -/
structure SymbolName (name : Text) : Prop extends Piece.PlainAtom name, IsName name

/-- The forms that are written as they are read. -/
inductive Plain : Form → Prop
  | nil : Plain .nil
  | bool (b : Bool) : Plain (.bool b)
  | int {n : Int} (fits : integerFits n = true) : Plain (.int n)
  | str (s : Text) : Plain (.str s)
  | regex {source : Text} (quotable : Piece.Quotable source) : Plain (.regex source)
  | char {name : Text} (named : Piece.CharName name) : Plain (.char name)
  | keyword {name : Text} (atoms : ∀ c ∈ name, c.isAtom = true)
      (start : name.head? ≠ some (CodePoint.ofChar ':')) : Plain (.keyword name)
  | symbol {name : Text} (attrs : Attrs) (named : SymbolName name) : Plain (.symbol name attrs)
  | coll {shape : Shape} {items : List Form} (line : Nat)
      (even : shape = .map → Even items.length) (plain : ∀ f ∈ items, Plain f) :
      Plain (.coll shape line items)

/-! ## Leaves -/

theorem digit_of_mem_ofNat {n : Nat} : ∀ c ∈ Text.ofNat n, 48 ≤ c.toNat ∧ c.toNat ≤ 57 := by
  intro c hc
  rw [Text.ofNat_eq_map] at hc
  obtain ⟨d, hd, rfl⟩ := List.mem_map.1 hc
  exact Char.isDigit_iff_toNat.1 (Nat.isDigit_of_mem_toDigits (by decide) (by decide) hd)

/-- All code points are such as stand inside atoms, and none of them begins a mark. -/
def Unmarked (t : Text) : Prop := ∀ c ∈ t, c.isAtom = true ∧ c ∉ Piece.marks

instance (t : Text) : Decidable (Unmarked t) :=
  inferInstanceAs (Decidable (∀ c ∈ t, c.isAtom = true ∧ c ∉ Piece.marks))

theorem Unmarked.plainAtom {t : Text} (h : Unmarked t) (nonempty : t ≠ []) :
    Piece.PlainAtom t where
  nonempty := nonempty
  atoms c hc := (h c hc).1
  start c hc := (h c (List.mem_of_mem_head? hc)).2

theorem unmarked_ofNat (n : Nat) : Unmarked (Text.ofNat n) := by
  have hmarks : ∀ m ∈ Piece.marks, ¬(48 ≤ m.toNat ∧ m.toNat ≤ 57) := by decide
  intro c hc
  have hdigit := digit_of_mem_ofNat c hc
  exact ⟨Piece.isAtom_of_alphanumeric (.inl hdigit), fun hmark => hmarks c hmark hdigit⟩

theorem plainAtom_ofNat (n : Nat) : Piece.PlainAtom (Text.ofNat n) := by
  apply (unmarked_ofNat n).plainAtom
  rw [Text.ofNat_eq_map]
  simp [Nat.toDigits_ne_nil]

theorem plainAtom_ofInt (n : Int) : Piece.PlainAtom (Text.ofInt n) := by
  cases n with
  | ofNat k => exact plainAtom_ofNat k
  | negSucc k =>
      refine ⟨by simp [Text.ofInt], ?_, ?_⟩
      · intro c hc
        rcases List.mem_cons.1 hc with rfl | hc
        · decide
        · exact (plainAtom_ofNat (k + 1)).atoms c hc
      · intro c hc
        cases hc
        decide

theorem plainAtom_keyword {name : Text} (atoms : ∀ c ∈ name, c.isAtom = true) :
    Piece.PlainAtom (CodePoint.ofChar ':' :: name) where
  nonempty := by simp
  atoms := by
    intro c hc
    rcases List.mem_cons.1 hc with rfl | hc
    · decide
    · exact atoms c hc
  start := by
    intro c hc
    cases hc
    decide

end Form

/-! ## Texts that convey forms -/

namespace Reader

open Grammar

variable {features : List Text}

/-- The tokens derive the forms but for lines and metadata, and no integer in them is above
the limit. -/
def Yields (features : List Text) (p : Phrase) (ts : List Token) (fs : List Form) : Prop :=
  (∀ t ∈ ts, withinLimit t.lexeme = true) ∧
    ∃ gs, Derives features p ts gs ∧ gs.map Form.bare = fs.map Form.bare

def Conveys (features : List Text) (p : Phrase) (t : Text) (fs : List Form) : Prop :=
  ∀ u, Piece.Boundary u → ∃ ps, Piece.Cuts (t ++ u) ps u ∧
    ∀ line, Yields features p (Token.ofPieces line ps) fs

theorem conveys_leaf {l : Lexeme} {f : Form} (fits : withinLimit l = true) (denotes : Denotes l f)
    (cut : ∀ u, Piece.Boundary u → Piece.next? (l.text ++ u) = some (.lexeme l, u)) :
    Conveys features .item l.text [f] := by
  intro u hu
  refine ⟨[.lexeme l], .piece (cut u hu) (.done u), fun line => ⟨?_, [f], ?_, rfl⟩⟩
  · intro t ht
    obtain rfl := List.mem_singleton.1 ht
    exact fits
  · exact .leaf line denotes

theorem conveys_atom {t : Text} {f : Form} (plain : Piece.PlainAtom t)
    (fits : withinLimit (.atom t) = true) (reads : Form.ofAtom t = .ok f) :
    Conveys features .item t [f] := by
  have hsign : t.head? ≠ some (CodePoint.ofChar '#') := fun hhead =>
    plain.start _ hhead (by decide)
  exact conveys_leaf fits (.atom hsign reads) fun u hu => Piece.next?_atom plain hu

def Starts (t : Text) : Prop := ∃ c r, t = c :: r ∧ c.isGap = false

theorem starts_of_plainAtom {t : Text} (h : Piece.PlainAtom t) : Starts t := by
  obtain ⟨c, r, rfl⟩ := List.exists_cons_of_ne_nil h.nonempty
  have hatom := h.atoms c (by simp)
  simp only [CodePoint.isAtom, Bool.not_eq_true', Bool.or_eq_false_iff] at hatom
  exact ⟨c, r, rfl, by simp_all⟩

theorem next?_space {t : Text} (h : Starts t) :
    Piece.next? (CodePoint.ofChar ' ' :: t) = some (.blank [CodePoint.ofChar ' '], t) := by
  obtain ⟨c, r, rfl, hgap⟩ := h
  have hspace : (CodePoint.ofChar ' ').isGap = true := by decide
  have hbegins := Piece.Begins.blank (c :: r) hspace
  simp only [List.takeWhile_cons, List.dropWhile_cons, hspace, hgap, if_true,
    Bool.false_eq_true, if_false] at hbegins
  exact Piece.next?_of_begins hbegins

theorem starts_append {t : Text} (h : Starts t) (u : Text) : Starts (t ++ u) := by
  obtain ⟨c, r, rfl, hgap⟩ := h
  exact ⟨c, r ++ u, rfl, hgap⟩

theorem conveys_nil : Conveys features .items [] [] := by
  intro u _
  exact ⟨[], .done u, fun line => ⟨nofun, [], .nil, rfl⟩⟩

theorem conveys_singleton {t : Text} {f : Form} (h : Conveys features .item t [f]) :
    Conveys features .items t [f] := by
  intro u hu
  obtain ⟨ps, hcuts, hyields⟩ := h u hu
  refine ⟨ps, hcuts, fun line => ?_⟩
  obtain ⟨fits, gs, hderives, hbare⟩ := hyields line
  exact ⟨fits, gs, hderives.singleton, hbare⟩

theorem conveys_space {t s : Text} {f : Form} {fs : List Form}
    (h : Conveys features .item t [f]) (hs : Conveys features .items s fs) (starts : Starts s) :
    Conveys features .items (t ++ CodePoint.ofChar ' ' :: s) (f :: fs) := by
  intro u hu
  have hspace : (CodePoint.ofChar ' ').isAtom = false := by decide
  obtain ⟨ps, hcuts, hyields⟩ := h _ (Piece.boundary_cons hspace (s ++ u))
  obtain ⟨qs, hcutsRest, hyieldsRest⟩ := hs u hu
  have hgap := next?_space (starts_append starts u)
  refine ⟨ps ++ .blank [CodePoint.ofChar ' '] :: qs, ?_, fun line => ?_⟩
  · rw [List.append_assoc]
    exact hcuts.append (.piece hgap hcutsRest)
  · rw [Token.ofPieces_append]
    obtain ⟨fits, gs, hderives, hbare⟩ := hyields line
    obtain ⟨fitsRest, gsRest, hderivesRest, hbareRest⟩ := hyieldsRest
      (line + Text.countNewlines (ps.flatMap Piece.text) + Text.countNewlines [CodePoint.ofChar ' '])
    refine ⟨?_, gs ++ gsRest, hderives.cons hderivesRest, ?_⟩
    · intro tok htok
      rcases List.mem_append.1 htok with htok | htok
      · exact fits tok htok
      · exact fitsRest tok htok
    · rw [List.map_append, hbare, hbareRest]
      rfl

/-! ## Collections -/

def opener : Shape → Opener
  | .list => .paren
  | .vector => .bracket
  | .set => .setBrace
  | .map => .brace

theorem brackets_eq (shape : Shape) :
    Form.brackets shape = ((opener shape).text, (opener shape).closer.text) := by
  cases shape <;> rfl

theorem next?_opener (shape : Shape) (u : Text) :
    Piece.next? ((opener shape).text ++ u) = some (.lexeme (.opener (opener shape)), u) := by
  cases shape with
  | set =>
      have hknown : (Text.ofString "\x7b", Lexeme.opener .setBrace) ∈ Piece.signed := by decide
      exact Piece.next?_of_begins (.signed u hknown)
  | _ => exact Piece.next?_of_begins (.single rfl rfl)

theorem next?_closer (c : Closer) (u : Text) :
    Piece.next? (c.text ++ u) = some (.lexeme (.closer c), u) := by
  cases c <;> exact Piece.next?_of_begins (.single rfl rfl)

theorem boundary_closer (c : Closer) (u : Text) : Piece.Boundary (c.text ++ u) := by
  cases c <;> exact Piece.boundary_cons (by decide) u

theorem starts_brackets (shape : Shape) (t : Text) : Starts ((Form.brackets shape).1 ++ t) := by
  cases shape <;> exact ⟨_, _, rfl, by decide⟩

theorem conveys_coll {shape : Shape} {items : List Form} {t : Text} (line : Nat)
    (even : shape = .map → Even items.length) (h : Conveys features .items t items) :
    Conveys features .item ((Form.brackets shape).1 ++ t ++ (Form.brackets shape).2)
      [.coll shape line items] := by
  intro u hu
  rw [brackets_eq, List.append_assoc, List.append_assoc]
  obtain ⟨ps, hcuts, hyields⟩ := h _ (boundary_closer (opener shape).closer u)
  refine ⟨.lexeme (.opener (opener shape)) :: (ps ++ [.lexeme (.closer (opener shape).closer)]),
    ?_, fun start => ?_⟩
  · exact .piece (next?_opener shape _) (hcuts.append (.piece (next?_closer _ u) (.done u)))
  · obtain ⟨fits, gs, hderives, hbare⟩ :=
      hyields (start + Text.countNewlines (opener shape).text)
    have hlength : gs.length = items.length := by simpa using congrArg List.length hbare
    have hshape : shape? (opener shape) = some shape := by cases shape <;> rfl
    have hcloses : Closes features (opener shape) start gs [.coll shape start gs] :=
      .coll start hshape (hlength ▸ even)
    refine ⟨?_, [.coll shape start gs], ?_, ?_⟩
    · intro tok htok
      rw [Token.ofPieces, Token.ofPieces_append] at htok
      simp only [Token.ofPieces, List.mem_cons, List.mem_append, List.not_mem_nil, or_false] at htok
      rcases htok with rfl | htok | rfl
      · rfl
      · exact fits tok htok
      · rfl
    · rw [Token.ofPieces, Token.ofPieces_append]
      exact .delimited _ hcloses hderives
    · simp [hbare]

theorem conveys_items {items : List Form}
    (h : ∀ f ∈ items, Starts f.render ∧ Conveys features .item f.render [f]) :
    Conveys features .items (Text.join " " (Form.renderItems items)) items := by
  induction items with
  | nil => exact conveys_nil
  | cons f r ih =>
      obtain ⟨-, hf⟩ := h f (by simp)
      have hr := ih fun g hg => h g (by simp [hg])
      cases r with
      | nil => exact conveys_singleton hf
      | cons g r =>
          obtain ⟨hstarts, -⟩ := h g (by simp)
          have hrest : Starts (Text.join " " (Form.renderItems (g :: r))) := by
            cases r with
            | nil => exact hstarts
            | cons g' r =>
                rw [Form.renderItems, Form.renderItems, Text.join, List.append_assoc]
                exact starts_append hstarts _
          have hjoin := conveys_space hf hr hrest
          simp only [Form.renderItems, Text.join, List.append_assoc] at hjoin ⊢
          exact hjoin

theorem withinLimit_ofInt {n : Int} (fits : Form.integerFits n = true) :
    withinLimit (.atom (Text.ofInt n)) = true := by
  have hdecimal := Form.decimalLiteral?_ofInt n
  have hhex := Form.hexLiteral?_of_decimalLiteral? hdecimal
  simp [withinLimit, hdecimal, hhex, Form.length_digitsOf_le_iff.2 fits]

theorem withinLimit_keyword (name : Text) :
    withinLimit (.atom (CodePoint.ofChar ':' :: name)) = true := by
  simp [withinLimit, Form.decimalLiteral?_colon, Form.hexLiteral?_colon]

theorem withinLimit_of_isName {name : Text} (h : Form.IsName name) :
    withinLimit (.atom name) = true := by
  simp [withinLimit, h.notDecimal, h.notHex]

theorem conveys_render {f : Form} (h : Form.Plain f) :
    Starts f.render ∧ Conveys features .item f.render [f] := by
  have hatom {t : Text} {f : Form} (plain : Piece.PlainAtom t)
      (fits : withinLimit (.atom t) = true) (reads : Form.ofAtom t = .ok f) :
      Starts t ∧ Conveys features .item t [f] :=
    ⟨starts_of_plainAtom plain, conveys_atom plain fits reads⟩
  induction h with
  | nil => exact hatom ⟨by decide, by decide, by decide⟩ (by decide) rfl
  | bool b => cases b <;> exact hatom ⟨by decide, by decide, by decide⟩ (by decide) rfl
  | int fits =>
      exact hatom (Form.plainAtom_ofInt _) (withinLimit_ofInt fits) (Form.ofAtom_ofInt fits)
  | str s =>
      have hcut := Piece.next?_str (Form.quotable_escape s)
      have hdenotes := Denotes.str (Form.escape s)
      rw [Form.unescape_escape] at hdenotes
      exact ⟨⟨_, _, rfl, by decide⟩, conveys_leaf rfl hdenotes fun u _ => hcut u⟩
  | regex quotable =>
      exact ⟨⟨_, _, rfl, by decide⟩,
        conveys_leaf rfl (.regex _) fun u _ => Piece.next?_regex quotable u⟩
  | char named =>
      exact ⟨⟨_, _, rfl, by decide⟩,
        conveys_leaf rfl (.char _) fun u hu => Piece.next?_char named hu⟩
  | keyword atoms start =>
      exact hatom (Form.plainAtom_keyword atoms) (withinLimit_keyword _) (Form.ofAtom_keyword start)
  | symbol attrs named =>
      have hname := hatom named.toPlainAtom (withinLimit_of_isName named.toIsName)
        (Form.ofAtom_of_isName named.toIsName)
      exact ⟨hname.1, hname.2⟩
  | @coll shape items line even _ ih =>
      have hitems := conveys_coll line even (conveys_items ih)
      rw [Form.render]
      refine ⟨?_, hitems⟩
      rw [List.append_assoc]
      exact starts_brackets shape _

end Reader

namespace Form

open Reader Grammar

variable {features : List Text}

theorem exists_readAll_render {f : Form} (h : Plain f) :
    ∃ g, readAll features f.render = .ok [g] ∧ g.bare = f.bare := by
  obtain ⟨-, hconveys⟩ := conveys_render h
  obtain ⟨ps, hcuts, hyields⟩ := hconveys [] Piece.boundary_nil
  rw [List.append_nil] at hcuts
  obtain ⟨fits, gs, hderives, hbare⟩ := hyields 1
  obtain ⟨g, rfl, hg⟩ := List.map_eq_singleton_iff.1 hbare
  refine ⟨g, ?_, hg⟩
  rw [readAll, Token.tokenize_of_cuts hcuts]
  exact readTokens_of_derives hderives.singleton fits

/-! ## What is read is plain -/

/-- Every part of the form is plain, if only it holds no float and no long integer. -/
def PlainParts (f : Form) : Prop := ∀ g, Part g f → FloatFree g → Bounded g → Plain g

theorem FloatFree.item {shape : Shape} {line : Nat} {items : List Form} {f : Form}
    (h : FloatFree (.coll shape line items)) (hf : f ∈ items) : FloatFree f :=
  fun x hx => h x (.item hf hx)

theorem Bounded.item {shape : Shape} {line : Nat} {items : List Form} {f : Form}
    (h : Bounded (.coll shape line items)) (hf : f ∈ items) : Bounded f :=
  fun n hn => h n (.item hf hn)

theorem plainParts_of_leaf {f : Form} (h : ∀ shape line items, f ≠ .coll shape line items)
    (plain : FloatFree f → Bounded f → Plain f) : PlainParts f := by
  intro g hg
  cases hg with
  | self => exact plain
  | item => exact absurd rfl (h _ _ _)

theorem symbolName_quote (q : QuoteMark) : SymbolName q.symbolName := by
  cases q <;> exact ⟨⟨by decide, by decide, by decide⟩,
    ⟨by decide, by decide, by decide, by decide, by decide, by decide, by decide⟩⟩

theorem inherited_plainParts : Inherited PlainParts where
  name q := plainParts_of_leaf nofun fun _ _ => .symbol _ (symbolName_quote q)
  coll line even h := by
    intro g hg hfloat hbound
    cases hg with
    | self =>
        exact .coll line even fun f hf => h f hf f .self (hfloat.item hf) (hbound.item hf)
    | item mem part => exact h _ mem g part hfloat hbound
  item h := fun f hf g hg => h g (.item hf hg)
  annotate {m f} _ hf := by
    cases f with
    | symbol name own =>
        refine plainParts_of_leaf nofun fun _ _ => ?_
        have hplain := hf _ .self nofun nofun
        cases hplain with
        | symbol _ named => exact .symbol _ named
    | _ => exact hf

theorem plain_keyword {t : Text} (h : Piece.PlainAtom t) :
    Plain (.keyword (t.dropWhile (· = ':'))) := by
  refine .keyword (fun c hc => h.atoms c ((List.dropWhile_sublist _).mem hc)) fun hhead => ?_
  have hnot := List.head?_dropWhile_not (· = CodePoint.ofChar ':') t
  simp [hhead] at hnot

theorem plain_of_ofAtom {t : Text} {f : Form} (h : Piece.PlainAtom t) (reads : ofAtom t = .ok f)
    (hfloat : FloatFree f) (hbound : Bounded f) : Plain f := by
  cases spells_of_ofAtom reads with
  | nil => exact .nil
  | bool b => exact .bool b
  | keyword => exact plain_keyword h
  | decimal => exact .int (hbound _ .self)
  | hex => exact .int (hbound _ .self)
  | float x => exact absurd .self (hfloat x)
  | name named => exact .symbol [] ⟨h, named⟩

/-- An atom with a doubled number sign in front, which is read as the name that follows. -/
def isSpecial : Lexeme → Bool
  | .atom t => t.startsWith "##"
  | _ => false

theorem plainParts_of_denotes {l : Lexeme} {f : Form} (valid : Piece.Valid l)
    (ordinary : isSpecial l = false) (h : Denotes l f) : PlainParts f := by
  cases h with
  | str body => exact plainParts_of_leaf nofun fun _ _ => .str _
  | regex body => exact plainParts_of_leaf nofun fun _ _ => .regex valid
  | char name => exact plainParts_of_leaf nofun fun _ _ => .char valid
  | special name =>
      have hlead := List.isPrefixOf_iff_prefix.2 (List.prefix_append (Text.ofString "##") name)
      rw [isSpecial, Text.startsWith, hlead] at ordinary
      cases ordinary
  | atom plain reads =>
      have hatom := valid.resolve_left plain
      refine plainParts_of_leaf ?_ (plain_of_ofAtom hatom reads)
      rintro shape line items rfl
      cases spells_of_ofAtom reads

/-- Rendering and reading are inverse on the plain forms, and what is read is plain: every
form of a text without doubled number signs, if it holds no float and no integer with too
many digits. -/
theorem readAll_undoes_render (features : List Text) :
    (∀ f, Plain f → ∃ g, readAll features f.render = .ok [g] ∧ g.bare = f.bare) ∧
      ∀ t ts fs, Token.tokenize t = .ok ts →
        (∀ tok ∈ ts, isSpecial tok.lexeme = false) →
        readAll features t = .ok fs → ∀ f ∈ fs, FloatFree f → Bounded f → Plain f := by
  constructor
  · intro f hf
    exact exists_readAll_render hf
  · intro t ts fs hts ordinary hfs f hf
    have hread : readTokens features ts = .ok fs := by
      rw [← hfs, readAll, hts]
      rfl
    have hvalid := Token.valid_of_tokenize hts
    have hparts := (derives_of_readTokens hread).forall_of_inherited inherited_plainParts
      fun tok htok g hg => plainParts_of_denotes (hvalid tok htok) (ordinary tok htok) hg
    exact hparts f hf f .self

/-- A character whose name may also begin a longer one, beside a string with escapes, and
a set that is read with metadata and before a comment. -/
theorem readAll_render_octal_and_set :
    (∃ g, readAll [] (Form.coll .vector 3 [.char "o", .int (-7), .str "\\u\""]).render = .ok [g] ∧
        g.bare = .coll .vector 0 [.char "o", .int (-7), .str "\\u\""]) ∧
      readAll [] "#\x7b^a b\x7d;c" = .ok [.coll .set 1 [.symbol "b" [("tag", .str "a")]]] ∧
      Plain (.coll .set 1 [.symbol "b" [("tag", .str "a")]]) := by
  have hvector : Plain (.coll .vector 3 [.char "o", .int (-7), .str "\\u\""]) := by
    refine .coll 3 nofun ?_
    simpa using ⟨Plain.char (.single (CodePoint.ofChar 'o')), Plain.int (by decide), Plain.str _⟩
  have hcuts : Piece.Cuts "#\x7b^a b\x7d;c" _ [] :=
    .piece rfl (.piece rfl (.piece rfl (.piece rfl (.piece rfl (.piece rfl (.piece rfl (.done _)))))))
  have hts : Token.tokenize "#\x7b^a b\x7d;c" = .ok [⟨.opener .setBrace, 1⟩, ⟨.hat, 1⟩,
      ⟨.atom "a", 1⟩, ⟨.atom "b", 1⟩, ⟨.closer .brace, 1⟩] := Token.tokenize_of_cuts hcuts
  have hread : readAll [] "#\x7b^a b\x7d;c" =
      .ok [.coll .set 1 [.symbol "b" [("tag", .str "a")]]] := by
    rw [readAll, hts]
    rfl
  have hparts (f : Form) (h : Part f (.coll .set 1 [.symbol "b" [("tag", .str "a")]])) :
      f = .coll .set 1 [.symbol "b" [("tag", .str "a")]] ∨
        f = .symbol "b" [("tag", .str "a")] := by
    cases h with
    | self => exact .inl rfl
    | item mem part =>
        obtain rfl := List.mem_singleton.1 mem
        cases part
        exact .inr rfl
  have hfloat : FloatFree (.coll .set 1 [.symbol "b" [("tag", .str "a")]]) :=
    fun x hx => by simpa using hparts _ hx
  have hbound : Bounded (.coll .set 1 [.symbol "b" [("tag", .str "a")]]) :=
    fun n hn => by simpa using hparts _ hn
  refine ⟨(readAll_undoes_render []).1 _ hvector, hread, ?_⟩
  exact (readAll_undoes_render []).2 _ _ _ hts (by decide) hread _ (by simp) hfloat hbound

end Form

end Docsmith
