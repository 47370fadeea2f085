import Docsmith.Proofs.Acceptance

/-!
# Lines inside forms

Tokens come in the order of their lines.  A collection has the line of its delimiter, or of the
mark that makes it, and what lies in it is read from later tokens.  So no collection begins
before one that it lies in.
-/

namespace Docsmith

namespace Form

def StartsFrom (n : Nat) (f : Form) : Prop :=
  ∀ shape line items, Part (.coll shape line items) f → n ≤ line

def Nested (f : Form) : Prop :=
  ∀ shape line items, Part (.coll shape line items) f → ∀ item ∈ items, item.StartsFrom line

theorem StartsFrom.mono {m n : Nat} {f : Form} (h : f.StartsFrom n) (hmn : m ≤ n) :
    f.StartsFrom m :=
  fun shape line items part => Nat.le_trans hmn (h shape line items part)

theorem startsFrom_coll_iff {n : Nat} {shape : Shape} {line : Nat} {items : List Form} :
    (Form.coll shape line items).StartsFrom n ↔ n ≤ line ∧ ∀ f ∈ items, f.StartsFrom n := by
  constructor
  · intro h
    exact ⟨h _ _ _ .self, fun f hf _ _ _ part => h _ _ _ (.item hf part)⟩
  · rintro ⟨hline, hitems⟩ _ _ _ part
    cases part with
    | self => exact hline
    | item mem part => exact hitems _ mem _ _ _ part

theorem nested_coll_iff {shape : Shape} {line : Nat} {items : List Form} :
    (Form.coll shape line items).Nested ↔ ∀ f ∈ items, f.StartsFrom line ∧ f.Nested := by
  constructor
  · intro h f hf
    exact ⟨h _ _ _ .self f hf, fun _ _ _ part => h _ _ _ (.item hf part)⟩
  · intro h _ _ _ part
    cases part with
    | self => exact fun f hf => (h f hf).1
    | item mem part => exact (h _ mem).2 _ _ _ part

def isLeaf : Form → Bool
  | .coll .. => false
  | _ => true

theorem not_part_of_isLeaf {f : Form} (h : f.isLeaf = true) (shape : Shape) (line : Nat)
    (items : List Form) : ¬Part (.coll shape line items) f := by
  intro part
  cases part <;> simp [isLeaf] at h

theorem startsFrom_of_isLeaf {f : Form} (h : f.isLeaf = true) (n : Nat) : f.StartsFrom n :=
  fun shape line items part => absurd part (not_part_of_isLeaf h shape line items)

theorem nested_of_isLeaf {f : Form} (h : f.isLeaf = true) : f.Nested :=
  fun shape line items part => absurd part (not_part_of_isLeaf h shape line items)

theorem isLeaf_of_denotes {l : Lexeme} {f : Form} (h : Grammar.Denotes l f) : f.isLeaf = true := by
  cases h with
  | str | regex | char | special => rfl
  | atom _ reads => cases spells_of_ofAtom reads <;> rfl

end Form

/-! ## Lines of tokens -/

namespace Token

def Ordered (n : Nat) (ts : List Token) : Prop := (n :: ts.map Token.line).Pairwise (· ≤ ·)

theorem ordered_cons_iff {n : Nat} {t : Token} {ts : List Token} :
    Ordered n (t :: ts) ↔ n ≤ t.line ∧ Ordered t.line ts := by
  simp only [Ordered, List.map_cons, List.pairwise_cons, List.forall_mem_cons]
  constructor
  · rintro ⟨⟨hn, -⟩, ht, hts⟩
    exact ⟨hn, ht, hts⟩
  · rintro ⟨hn, ht, hts⟩
    exact ⟨⟨hn, fun line hline => Nat.le_trans hn (ht line hline)⟩, ht, hts⟩

theorem Ordered.left {n : Nat} {ts us : List Token} (h : Ordered n (ts ++ us)) : Ordered n ts :=
  h.sublist (by simp)

theorem Ordered.right {n : Nat} {ts us : List Token} (h : Ordered n (ts ++ us)) : Ordered n us :=
  h.sublist (by simp)

theorem ordered_ofPieces (line : Nat) (ps : List Piece) : Ordered line (ofPieces line ps) := by
  induction ps generalizing line with
  | nil => simp [Ordered, ofPieces]
  | cons p ps ih =>
      have hrest := ih (line + p.text.countNewlines)
      have hfrom : Ordered line (ofPieces (line + p.text.countNewlines) ps) := by
        simp only [Ordered, List.pairwise_cons] at hrest ⊢
        exact ⟨fun l hl => Nat.le_trans (Nat.le_add_right _ _) (hrest.1 l hl), hrest.2⟩
      cases p with
      | lexeme l => exact ordered_cons_iff.2 ⟨le_rfl, hfrom⟩
      | blank | comment => exact hfrom

theorem ordered_of_tokenize {t : Text} {ts : List Token} (h : tokenize t = .ok ts) :
    Ordered 1 ts := by
  unfold tokenize at h
  split at h
  · cases h
    exact ordered_ofPieces 1 _
  · cases h

end Token

/-! ## Forms that are read -/

namespace Grammar

open Form Token

variable {features : List Text}

theorem Closes.nested {o : Opener} {line : Nat} {fs gs : List Form}
    (h : Closes features o line fs gs) (hfs : ∀ f ∈ fs, f.StartsFrom line ∧ f.Nested) :
    ∀ g ∈ gs, g.StartsFrom line ∧ g.Nested := by
  intro g hg
  cases h with
  | coll line opens even =>
      obtain rfl := List.mem_singleton.1 hg
      exact ⟨startsFrom_coll_iff.2 ⟨le_rfl, fun f hf => (hfs f hf).1⟩, nested_coll_iff.2 hfs⟩
  | conditional line even selects =>
      exact hfs g (selects.mem (Option.mem_toList.1 hg))
  | splice line even selects sequence =>
      obtain ⟨hstarts, hnested⟩ := hfs _ (selects.mem rfl)
      exact ⟨(startsFrom_coll_iff.1 hstarts).2 g hg, (nested_coll_iff.1 hnested g hg).2⟩
  | spliceNothing => simp at hg

theorem nested_annotate {n : Nat} {f : Form} (h : f.StartsFrom n ∧ f.Nested) (attrs : Attrs) :
    (f.annotate attrs).StartsFrom n ∧ (f.annotate attrs).Nested := by
  cases f with
  | symbol => exact ⟨startsFrom_of_isLeaf rfl n, nested_of_isLeaf rfl⟩
  | _ => exact h

theorem Derives.nested {p : Phrase} {ts : List Token} {fs : List Form}
    (h : Derives features p ts fs) {n : Nat} (ordered : Ordered n ts) :
    ∀ f ∈ fs, f.StartsFrom n ∧ f.Nested := by
  induction h generalizing n with
  | leaf line denotes =>
      have hleaf := isLeaf_of_denotes denotes
      simpa using ⟨startsFrom_of_isLeaf hleaf n, nested_of_isLeaf hleaf⟩
  | delimited last closes _ ih =>
      obtain ⟨hn, hrest⟩ := ordered_cons_iff.1 ordered
      intro g hg
      obtain ⟨hstarts, hnested⟩ := closes.nested (ih hrest.left) g hg
      exact ⟨hstarts.mono hn, hnested⟩
  | discard => simp
  | quote q line _ ih =>
      obtain ⟨hn, hrest⟩ := ordered_cons_iff.1 ordered
      have hf := ih hrest
      simp only [List.mem_singleton, forall_eq] at hf ⊢
      have hname : (ofName q.symbolName).StartsFrom line ∧ (ofName q.symbolName).Nested :=
        ⟨startsFrom_of_isLeaf rfl line, nested_of_isLeaf rfl⟩
      constructor
      · apply StartsFrom.mono (n := line) _ hn
        simpa [startsFrom_coll_iff] using ⟨hname.1, hf.1⟩
      · simpa [nested_coll_iff] using ⟨hname, hf⟩
  | annotated line _ _ _ ihf =>
      obtain ⟨hn, hrest⟩ := ordered_cons_iff.1 ordered
      have hf := ihf hrest.right
      simp only [List.mem_singleton, forall_eq] at hf ⊢
      exact nested_annotate ⟨hf.1.mono hn, hf.2⟩ _
  | tagged line _ _ _ ih =>
      obtain ⟨hn, hrest⟩ := ordered_cons_iff.1 ordered
      exact fun f hf => ⟨(ih hrest f hf).1.mono hn, (ih hrest f hf).2⟩
  | nil => simp
  | cons _ _ iht ihu =>
      exact List.forall_mem_append.2 ⟨iht ordered.left, ihu ordered.right⟩
  | one _ _ _ ih =>
      have hf := ih ordered.right
      simpa using hf _ List.mem_cons_self

end Grammar

theorem Form.nested_of_readAll {features : List Text} {t : Text} {fs : List Form}
    (h : readAll features t = .ok fs) : ∀ f ∈ fs, f.StartsFrom 1 ∧ f.Nested := by
  obtain ⟨ts, hts, hread⟩ := exists_of_bind_eq_ok h
  exact (Reader.derives_of_readTokens hread).nested (Token.ordered_of_tokenize hts)

end Docsmith
