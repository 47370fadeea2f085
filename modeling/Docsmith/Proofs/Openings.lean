import Docsmith.Proofs.Nesting

/-!
# Where collections begin

Every collection that is read has a token of its own: the delimiter that opens it, or the mark
that makes it.  The collections of a text, each before those that lie in it, have theirs in the
order of the tokens, since whatever conditionals and marks do to forms, they only leave some
of them out.
-/

namespace Docsmith

namespace Form

mutual
def collections : Form → List Form
  | .coll shape line items => .coll shape line items :: collectionsIn items
  | _ => []

def collectionsIn : List Form → List Form
  | [] => []
  | f :: fs => collections f ++ collectionsIn fs
end

/-- The form itself, a part of an item, or a part of the metadata of a symbol. -/
inductive Holds (g : Form) : Form → Prop
  | self : Holds g g
  | item {shape : Shape} {line : Nat} {items : List Form} {f : Form} (mem : f ∈ items)
      (holds : Holds g f) : Holds g (.coll shape line items)
  | attr {name : Text} {attrs : Attrs} {e : Text × Form} (mem : e ∈ attrs)
      (holds : Holds g e.2) : Holds g (.symbol name attrs)

def line? : Form → Option Nat
  | .coll _ line _ => some line
  | _ => none

theorem collectionsIn_append (fs gs : List Form) :
    collectionsIn (fs ++ gs) = collectionsIn fs ++ collectionsIn gs := by
  induction fs with
  | nil => rfl
  | cons f fs ih => rw [List.cons_append, collectionsIn, collectionsIn, ih, List.append_assoc]

theorem collectionsIn_singleton (f : Form) : collectionsIn [f] = collections f := by
  rw [collectionsIn, collectionsIn, List.append_nil]

theorem collections_sublist {f : Form} {fs : List Form} (h : f ∈ fs) :
    (collections f).Sublist (collectionsIn fs) := by
  obtain ⟨before, after, rfl⟩ := List.append_of_mem h
  rw [collectionsIn_append, collectionsIn]
  exact (List.sublist_append_left _ _).trans (List.sublist_append_right _ _)

theorem collections_of_isLeaf {f : Form} (h : f.isLeaf = true) : collections f = [] := by
  cases f with
  | coll => cases h
  | _ => rfl

theorem collections_annotate (attrs : Attrs) (f : Form) :
    collections (f.annotate attrs) = collections f := by
  cases f <;> rfl

/-- Metadata brings along nothing but what the form that it is made of holds, apart from the
flags and texts that it consists of itself. -/
theorem holds_of_holds_annotate {m f g : Form} (h : Holds g (f.annotate m.entries))
    (notSymbol : g.isSymbol = false) (notFlag : g ≠ .bool true) (notText : ∀ s, g ≠ .str s) :
    Holds g m ∨ Holds g f := by
  cases f with
  | symbol name own =>
      cases h with
      | self => cases notSymbol
      | attr mem holds =>
          rcases Table.mem_update mem with hown | hentry
          · exact .inr (.attr hown holds)
          · rcases mem_entries hentry with heq | ⟨s, heq⟩ | ⟨start, forms, rfl, hforms⟩
            · rw [heq] at holds
              cases holds
              exact absurd rfl notFlag
            · rw [heq] at holds
              cases holds
              exact absurd rfl (notText s)
            · exact .inl (.item hforms holds)
  | _ => exact .inr h

end Form

namespace Grammar

open Form

variable {features : List Text}

/-- The first of the tokens is the one that the collection has its line from: the delimiter that
opens it, or the mark that makes it of the next form. -/
inductive Opens (features : List Text) : List Token → Form → Prop
  | delimiter {o : Opener} {shape : Shape} {ts : List Token} {items : List Form} (line last : Nat)
      (opens : shape? o = some shape) (body : Derives features .items ts items)
      (after : List Token) :
      Opens features (⟨.opener o, line⟩ :: (ts ++ ⟨.closer o.closer, last⟩ :: after))
        (.coll shape line items)
  | mark {ts : List Token} {f : Form} (q : QuoteMark) (line : Nat)
      (body : Derives features .one ts [f]) (after : List Token) :
      Opens features (⟨.quote q, line⟩ :: (ts ++ after))
        (.coll .list line [ofName q.symbolName, f])

inductive OpensEach (features : List Text) : List Token → List Form → Prop
  | nil (ts : List Token) : OpensEach features ts []
  | skip {ts : List Token} {cs : List Form} (t : Token) (rest : OpensEach features ts cs) :
      OpensEach features (t :: ts) cs
  | here {t : Token} {ts : List Token} {c : Form} {cs : List Form}
      (opens : Opens features (t :: ts) c) (rest : OpensEach features ts cs) :
      OpensEach features (t :: ts) (c :: cs)

theorem Opens.line {t : Token} {ts : List Token} {c : Form} (h : Opens features (t :: ts) c) :
    c.line? = some t.line := by
  cases h <;> rfl

theorem Opens.lexeme {t : Token} {ts : List Token} {shape : Shape} {line : Nat} {items : List Form}
    (h : Opens features (t :: ts) (.coll shape line items)) :
    (∃ o, t.lexeme = .opener o ∧ shape? o = some shape) ∨
      ∃ q f, t.lexeme = .quote q ∧ items = [ofName q.symbolName, f] := by
  cases h with
  | delimiter line last opens body after => exact .inl ⟨_, rfl, opens⟩
  | mark q line body after => exact .inr ⟨q, _, rfl, rfl⟩

theorem Opens.append {ts : List Token} {c : Form} (h : Opens features ts c) (us : List Token) :
    Opens features (ts ++ us) c := by
  cases h with
  | delimiter line last opens body after =>
      rw [List.cons_append, List.append_assoc, List.cons_append]
      exact .delimiter line last opens body (after ++ us)
  | mark q line body after =>
      rw [List.cons_append, List.append_assoc]
      exact .mark q line body (after ++ us)

theorem Opens.of_mark {ts : List Token} {f : Form} (q : QuoteMark) (line : Nat)
    (body : Derives features .one ts [f]) :
    Opens features (⟨.quote q, line⟩ :: ts) (.coll .list line [ofName q.symbolName, f]) := by
  simpa using Opens.mark q line body []

namespace OpensEach

theorem prepend (ts : List Token) {us : List Token} {cs : List Form}
    (h : OpensEach features us cs) : OpensEach features (ts ++ us) cs := by
  induction ts with
  | nil => exact h
  | cons t ts ih => exact .skip t ih

theorem append {ts us : List Token} {cs ds : List Form} (h : OpensEach features ts cs)
    (hu : OpensEach features us ds) : OpensEach features (ts ++ us) (cs ++ ds) := by
  induction h with
  | nil ts => exact hu.prepend ts
  | skip t _ ih => exact .skip t ih
  | here opens _ ih => exact .here (opens.append us) ih

theorem extend {ts : List Token} {cs : List Form} (h : OpensEach features ts cs)
    (us : List Token) : OpensEach features (ts ++ us) cs := by
  simpa using h.append (.nil us)

theorem sublist {ts : List Token} {cs ds : List Form} (h : OpensEach features ts cs)
    (hsub : ds.Sublist cs) : OpensEach features ts ds := by
  induction h generalizing ds with
  | nil ts =>
      obtain rfl := List.sublist_nil.1 hsub
      exact .nil ts
  | skip t _ ih => exact .skip t (ih hsub)
  | here opens _ ih =>
      cases hsub with
      | cons _ hsub => exact .skip _ (ih hsub)
      | cons_cons _ hsub => exact .here opens (ih hsub)

end OpensEach

/-! ## Derived forms -/

theorem Closes.opensEach {o : Opener} {line : Nat} {fs gs : List Form} {ts : List Token}
    (h : Closes features o line fs gs) (last : Nat) (body : Derives features .items ts fs)
    (hts : OpensEach features ts (collectionsIn fs)) :
    OpensEach features (⟨.opener o, line⟩ :: (ts ++ [⟨.closer o.closer, last⟩]))
      (collectionsIn gs) := by
  have hrest := hts.extend [⟨.closer o.closer, last⟩]
  cases h with
  | coll line opens even =>
      rw [collectionsIn_singleton]
      exact .here (.delimiter line last opens body []) hrest
  | @conditional _ choice line even selects =>
      refine .skip _ (hrest.sublist ?_)
      cases choice with
      | none => exact List.nil_sublist _
      | some g =>
          rw [Option.toList_some, collectionsIn_singleton]
          exact collections_sublist (selects.mem rfl)
  | splice line even selects sequence =>
      refine .skip _ (hrest.sublist ?_)
      exact (List.sublist_cons_self _ _).trans (collections_sublist (selects.mem rfl))
  | spliceNothing line even selects => exact .nil _

theorem Derives.opensEach {p : Phrase} {ts : List Token} {fs : List Form}
    (h : Derives features p ts fs) : OpensEach features ts (collectionsIn fs) := by
  induction h with
  | leaf line denotes =>
      rw [collectionsIn_singleton, collections_of_isLeaf (isLeaf_of_denotes denotes)]
      exact .nil _
  | delimited last closes body ih => exact closes.opensEach last body ih
  | discard => exact .nil _
  | quote q line body ih =>
      rw [collectionsIn_singleton]
      exact .here (.of_mark q line body) ih
  | annotated line _ _ _ ih =>
      rw [collectionsIn_singleton, collections_annotate, ← collectionsIn_singleton]
      exact .skip _ (ih.prepend _)
  | tagged line _ _ _ ih => exact .skip _ ih
  | nil => exact .nil _
  | cons _ _ ihhead ihtail =>
      rw [collectionsIn_append]
      exact ihhead.append ihtail
  | @one _ us f fs _ _ _ ih =>
      rw [collectionsIn_singleton]
      exact (ih.sublist (collections_sublist List.mem_cons_self)).prepend _

theorem not_holds_of_denotes {l : Lexeme} {f : Form} (h : Denotes l f) {shape : Shape}
    {line : Nat} {items : List Form} : ¬Holds (.coll shape line items) f := by
  have hname (name : Text) : ¬Holds (.coll shape line items) (ofName name) := by
    rintro (_ | _ | ⟨mem, _⟩)
    cases mem
  intro holds
  cases h with
  | str | regex | char => cases holds
  | special name => exact hname name holds
  | atom _ reads =>
      cases spells_of_ofAtom reads with
      | name => exact hname _ holds
      | _ => cases holds

theorem Closes.opens_of_holds {o : Opener} {line : Nat} {fs gs : List Form} {ts : List Token}
    (h : Closes features o line fs gs) (last : Nat) (body : Derives features .items ts fs)
    {c : Form} (hts : ∀ f ∈ fs, Holds c f → OpensEach features ts [c]) {g : Form} (hg : g ∈ gs)
    (holds : Holds c g) :
    OpensEach features (⟨.opener o, line⟩ :: (ts ++ [⟨.closer o.closer, last⟩])) [c] := by
  have hinner (f : Form) (hf : f ∈ fs) (holds : Holds c f) :
      OpensEach features (⟨.opener o, line⟩ :: (ts ++ [⟨.closer o.closer, last⟩])) [c] :=
    .skip _ ((hts f hf holds).extend _)
  cases h with
  | coll line opens even =>
      obtain rfl := List.mem_singleton.1 hg
      cases holds with
      | self => exact .here (.delimiter line last opens body []) (.nil _)
      | item mem holds => exact hinner _ mem holds
  | conditional line even selects => exact hinner g (selects.mem (Option.mem_toList.1 hg)) holds
  | splice line even selects sequence => exact hinner _ (selects.mem rfl) (.item hg holds)
  | spliceNothing => cases hg

theorem Derives.opens_of_holds {p : Phrase} {ts : List Token} {fs : List Form}
    (h : Derives features p ts fs) {shape : Shape} {line : Nat} {items : List Form} :
    ∀ f ∈ fs, Holds (.coll shape line items) f →
      OpensEach features ts [.coll shape line items] := by
  induction h with
  | leaf _ denotes =>
      simp only [List.mem_singleton, forall_eq]
      exact fun holds => absurd holds (not_holds_of_denotes denotes)
  | delimited last closes body ih =>
      exact fun g hg holds => closes.opens_of_holds last body ih hg holds
  | discard => simp
  | quote q _ body ih =>
      simp only [List.mem_singleton, forall_eq] at ih ⊢
      intro holds
      cases holds with
      | self => exact .here (.of_mark q line body) (.nil _)
      | item mem holds =>
          rcases List.mem_cons.1 mem with rfl | mem
          · rcases holds with _ | _ | ⟨mem, _⟩
            cases mem
          · obtain rfl := List.mem_singleton.1 mem
            exact .skip _ (ih holds)
  | annotated _ _ _ ihfront ihbody =>
      simp only [List.mem_singleton, forall_eq] at ihfront ihbody ⊢
      intro holds
      rcases holds_of_holds_annotate holds rfl nofun nofun with hm | hf
      · exact .skip _ ((ihfront hm).extend _)
      · exact .skip _ ((ihbody hf).prepend _)
  | tagged _ _ _ _ ih => exact fun f hf holds => .skip _ (ih f hf holds)
  | nil => simp
  | cons _ _ ihhead ihtail =>
      intro f hf holds
      rcases List.mem_append.1 hf with hf | hf
      · exact (ihhead f hf holds).extend _
      · exact (ihtail f hf holds).prepend _
  | one _ _ _ ih =>
      simp only [List.mem_singleton, forall_eq]
      exact fun holds => (ih _ List.mem_cons_self holds).prepend _

end Grammar

end Docsmith
