import Docsmith.Proofs.Metadata
import Mathlib.Algebra.Group.Nat.Even

/-!
# The grammar of forms

Tokens derive forms by three kinds of phrase.  An item yields any number of forms, items
are a sequence of such, and a mark takes one form: the first that comes, after items that
yield nothing.  The grammar says nothing of stacks or of positions; what the reader does
with tokens is compared with it elsewhere.
-/

namespace Docsmith

inductive Form.Part (g : Form) : Form → Prop
  | self : Part g g
  | item {shape : Shape} {line : Nat} {items : List Form} {f : Form} (mem : f ∈ items)
      (part : Part g f) : Part g (.coll shape line items)

namespace Grammar

/-- The form of a lexeme that stands alone.  A number sign begins a tag, unless it is
doubled. -/
inductive Denotes : Lexeme → Form → Prop
  | str (body : Text) : Denotes (.str body) (.str (Form.unescape body))
  | regex (body : Text) : Denotes (.regex body) (.regex body)
  | char (name : Text) : Denotes (.char name) (.char name)
  | special (name : Text) : Denotes (.atom ("##" ++ name)) (Form.ofName name)
  | atom {text : Text} {f : Form} (plain : text.head? ≠ some (CodePoint.ofChar '#'))
      (reads : Form.ofAtom text = .ok f) : Denotes (.atom text) f

def shape? : Opener → Option Shape
  | .paren | .fnParen => some .list
  | .bracket => some .vector
  | .setBrace => some .set
  | .brace => some .map
  | .conditional | .splice => none

def Enabled (features : List Text) (name : Text) : Prop := name ∈ features ∨ name = "default"

/-- The branch that features choose among the forms of a conditional, if any.  Only the
features up to that branch have to be keywords. -/
inductive Selects (features : List Text) : List Form → Option Form → Prop
  | nothing : Selects features [] none
  | here {name : Text} {f : Form} {rest : List Form} (enabled : Enabled features name) :
      Selects features (.keyword name :: f :: rest) (some f)
  | later {name : Text} {f : Form} {rest : List Form} {choice : Option Form}
      (disabled : ¬Enabled features name) (tail : Selects features rest choice) :
      Selects features (.keyword name :: f :: rest) choice

/-- What a delimiter stands for once it is closed around forms: a collection, or the
branch of a conditional, which a splice takes apart. -/
inductive Closes (features : List Text) : Opener → Nat → List Form → List Form → Prop
  | coll {o : Opener} {shape : Shape} {fs : List Form} (line : Nat)
      (opens : shape? o = some shape) (even : shape = .map → Even fs.length) :
      Closes features o line fs [.coll shape line fs]
  | conditional {fs : List Form} {choice : Option Form} (line : Nat) (even : Even fs.length)
      (selects : Selects features fs choice) :
      Closes features .conditional line fs choice.toList
  | splice {fs gs : List Form} {shape : Shape} {start : Nat} (line : Nat)
      (even : Even fs.length) (selects : Selects features fs (some (.coll shape start gs)))
      (sequence : shape = .list ∨ shape = .vector) :
      Closes features .splice line fs gs
  | spliceNothing {fs : List Form} (line : Nat) (even : Even fs.length)
      (selects : Selects features fs none) :
      Closes features .splice line fs []

inductive Phrase where
  | item
  | items
  | one
deriving DecidableEq, Repr

/-- The forms that a sequence of tokens yields as a phrase. -/
inductive Derives (features : List Text) : Phrase → List Token → List Form → Prop
  | leaf {l : Lexeme} {f : Form} (line : Nat) (denotes : Denotes l f) :
      Derives features .item [⟨l, line⟩] [f]
  | delimited {o : Opener} {ts : List Token} {fs gs : List Form} {line : Nat} (last : Nat)
      (closes : Closes features o line fs gs) (body : Derives features .items ts fs) :
      Derives features .item (⟨.opener o, line⟩ :: (ts ++ [⟨.closer o.closer, last⟩])) gs
  | discard {ts : List Token} {f : Form} (line : Nat) (body : Derives features .one ts [f]) :
      Derives features .item (⟨.discard, line⟩ :: ts) []
  | quote {ts : List Token} {f : Form} (q : QuoteMark) (line : Nat)
      (body : Derives features .one ts [f]) :
      Derives features .item (⟨.quote q, line⟩ :: ts)
        [.coll .list line [Form.ofName q.symbolName, f]]
  | annotated {ts us : List Token} {m f : Form} (line : Nat)
      (front : Derives features .one ts [m]) (body : Derives features .one us [f]) :
      Derives features .item (⟨.hat, line⟩ :: (ts ++ us)) [f.annotate m.entries]
  | tagged {text : Text} {ts : List Token} {f : Form} (line : Nat)
      (sign : text.head? = some (CodePoint.ofChar '#')) (single : Text.after? "##" text = none)
      (body : Derives features .one ts [f]) :
      Derives features .item (⟨.atom text, line⟩ :: ts) [f]
  | nil : Derives features .items [] []
  | cons {ts us : List Token} {fs gs : List Form} (head : Derives features .item ts fs)
      (tail : Derives features .items us gs) : Derives features .items (ts ++ us) (fs ++ gs)
  | one {ts us : List Token} {f : Form} {fs : List Form}
      (skipped : Derives features .items ts []) (head : Derives features .item us (f :: fs)) :
      Derives features .one (ts ++ us) [f]

variable {features : List Text}

namespace Derives

theorem singleton {ts : List Token} {fs : List Form} (h : Derives features .item ts fs) :
    Derives features .items ts fs := by
  simpa using Derives.cons h .nil

theorem append {ts us : List Token} {fs gs : List Form}
    (h : Derives features .items ts fs) (hu : Derives features .items us gs) :
    Derives features .items (ts ++ us) (fs ++ gs) := by
  generalize hp : Phrase.items = p at h
  induction h with
  | nil => simpa using hu
  | cons head _ _ ih =>
      rw [List.append_assoc, List.append_assoc]
      exact .cons head (ih rfl)
  | _ => cases hp

theorem snoc {ts us : List Token} {fs gs : List Form} (h : Derives features .items ts fs)
    (hu : Derives features .item us gs) : Derives features .items (ts ++ us) (fs ++ gs) :=
  h.append hu.singleton

end Derives

/-! ## What all derived forms have in common -/

theorem Selects.mem {fs : List Form} {choice : Option Form} {f : Form}
    (h : Selects features fs choice) (hf : choice = some f) : f ∈ fs := by
  induction h with
  | nothing => cases hf
  | here => simp_all
  | later _ _ ih => simp [ih hf]

/-- A property that passes from forms to the forms made of them, and back from a
collection to its items. -/
structure Inherited (P : Form → Prop) : Prop where
  name (q : QuoteMark) : P (Form.ofName q.symbolName)
  coll {shape : Shape} {items : List Form} (line : Nat) (even : shape = .map → Even items.length)
    (h : ∀ f ∈ items, P f) : P (.coll shape line items)
  item {shape : Shape} {line : Nat} {items : List Form} (h : P (.coll shape line items)) :
    ∀ f ∈ items, P f
  annotate {m f : Form} (hm : P m) (hf : P f) : P (f.annotate m.entries)

theorem Closes.forall_of_inherited {P : Form → Prop} (hP : Inherited P) {o : Opener} {line : Nat}
    {fs gs : List Form} (h : Closes features o line fs gs) (hfs : ∀ f ∈ fs, P f) :
    ∀ g ∈ gs, P g := by
  intro g hg
  cases h with
  | coll line opens even =>
      obtain rfl := List.mem_singleton.1 hg
      exact hP.coll line even hfs
  | conditional line even selects =>
      exact hfs g (selects.mem (Option.mem_toList.1 hg))
  | splice line even selects sequence =>
      exact hP.item (hfs _ (selects.mem rfl)) g hg
  | spliceNothing => simp at hg

theorem Derives.forall_of_inherited {P : Form → Prop} (hP : Inherited P) {p : Phrase}
    {ts : List Token} {fs : List Form} (h : Derives features p ts fs)
    (hleaf : ∀ t ∈ ts, ∀ f, Denotes t.lexeme f → P f) : ∀ f ∈ fs, P f := by
  induction h with
  | leaf line denotes =>
      intro f hf
      obtain rfl := List.mem_singleton.1 hf
      exact hleaf _ (List.mem_singleton.2 rfl) _ denotes
  | delimited last closes _ ih =>
      exact closes.forall_of_inherited hP (ih fun t ht => hleaf t (by simp [ht]))
  | discard => simp
  | quote q line _ ih =>
      have hf := ih fun t ht => hleaf t (by simp [ht])
      simp only [List.mem_singleton, forall_eq] at hf ⊢
      exact hP.coll line nofun (by simpa using ⟨hP.name q, hf⟩)
  | annotated line _ _ ihm ihf =>
      have hm := ihm fun t ht => hleaf t (by simp [ht])
      have hf := ihf fun t ht => hleaf t (by simp [ht])
      simp only [List.mem_singleton, forall_eq] at hm hf ⊢
      exact hP.annotate hm hf
  | tagged line _ _ _ ih => exact ih fun t ht => hleaf t (by simp [ht])
  | nil => simp
  | cons _ _ iht ihu =>
      intro f hf
      rcases List.mem_append.1 hf with hf | hf
      · exact iht (fun t ht => hleaf t (by simp [ht])) f hf
      · exact ihu (fun t ht => hleaf t (by simp [ht])) f hf
  | one _ _ _ ih =>
      have hf := ih fun t ht => hleaf t (by simp [ht])
      simp only [List.mem_singleton, forall_eq]
      exact hf _ (by simp)

end Grammar

end Docsmith
