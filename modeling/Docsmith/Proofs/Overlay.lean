import Docsmith.Proofs.Dictionaries
import Docsmith.Proofs.Keeping
import Docsmith.Proofs.Stages

/-!
# Defaults go beneath what is there

At every namespace, variable and member, defaults fill what is null and go beneath the metadata
that is there; nothing that is set is lost.  Defaults that were overlaid once have nothing more to
fill.
-/

namespace Docsmith

/-! ## Fields -/

/-- What becomes of a field: it stays if it is set, and takes the value of the last default that
names it, if there is one, while it is null. -/
inductive Fills (defaults : Dict) (field : Text) : Value → Value → Prop
  | set {v : Value} (h : v ≠ .null) : Fills defaults field v v
  | named {before after : Dict} {key value : Value}
      (split : defaults = before ++ (key, value) :: after) (names : fieldSpelling key = field)
      (last : ∀ e ∈ after, fieldSpelling e.1 ≠ field) : Fills defaults field .null value
  | unnamed (h : ∀ e ∈ defaults, fieldSpelling e.1 ≠ field) : Fills defaults field .null .null

theorem fill_of_ne_null {v : Value} (h : v ≠ .null) (defaults : Dict) (field : Text) :
    fill defaults field v = v :=
  Value.keeps_fill defaults field v h

theorem fill_null (defaults : Dict) (field : Text) :
    fill defaults field .null = (defaultFor defaults field).getD .null := rfl

theorem fills_fill (defaults : Dict) (field : Text) (v : Value) :
    Fills defaults field v (fill defaults field v) := by
  by_cases hv : v = .null
  · subst hv
    rw [fill_null, defaultFor]
    cases hfind : defaults.reverse.find? fun e => fieldSpelling e.1 = field with
    | none =>
        apply Fills.unnamed
        simpa using hfind
    | some e =>
        obtain ⟨hnames, after, before, hsplit, hlast⟩ := List.find?_eq_some_iff_append.1 hfind
        have hdefaults : defaults = before.reverse ++ (e.1, e.2) :: after.reverse := by
          simpa using congrArg List.reverse hsplit
        apply Fills.named hdefaults
        · simpa using hnames
        · simpa using hlast
  · rw [fill_of_ne_null hv]
    exact .set hv

theorem fill_fill (defaults : Dict) (field : Text) (v : Value) :
    fill defaults field (fill defaults field v) = fill defaults field v := by
  by_cases h : fill defaults field v = .null
  · have hv : v = .null := by
      by_contra hv
      rw [fill_of_ne_null hv] at h
      exact hv h
    rw [hv] at h ⊢
    rw [h]
    exact h
  · exact fill_of_ne_null h defaults field

/-! ## Metadata -/

/-- The key names neither one of the fields nor a part that defaults leave alone. -/
def NamesNone (fields : List Text) (key : Value) : Prop :=
  fieldSpelling key ∉ fields ∧ isStructural (fieldSpelling key) = false

structure Beneath (fields : List Text) (defaults own result : Dict) : Prop where
  distinct : result.Distinct
  kept : ∀ e ∈ own, result.Holds e.1 e.2
  beneath : ∀ e ∈ defaults, NamesNone fields e.1 → (∀ e' ∈ own, e.1.sameKey e'.1 = false) →
    result.Holds e.1 e.2
  only : ∀ e ∈ result, own.Holds e.1 e.2 ∨
    e ∈ defaults ∧ NamesNone fields e.1 ∧ ∀ e' ∈ own, e.1.sameKey e'.1 = false

def unnamedIn (isField : Text → Bool) (defaults : Dict) : Dict :=
  defaults.filter fun e => !isField (fieldSpelling e.1) && !isStructural (fieldSpelling e.1)

theorem mem_unnamedIn {fields : List Text} {isField : Text → Bool}
    (hfields : ∀ field, isField field = true ↔ field ∈ fields) {defaults : Dict}
    {e : Value × Value} :
    e ∈ unnamedIn isField defaults ↔ e ∈ defaults ∧ NamesNone fields e.1 := by
  simp [unnamedIn, NamesNone, ← hfields]

theorem fillAttrs_eq (isField : Text → Bool) (defaults own : Dict) :
    fillAttrs isField defaults own =
      if (unnamedIn isField defaults).isEmpty then own
      else Dict.update (unnamedIn isField defaults) own := rfl

theorem distinct_unnamedIn {defaults : Dict} (h : defaults.Distinct) (isField : Text → Bool) :
    (unnamedIn isField defaults).Distinct :=
  List.Pairwise.filter _ h

theorem beneath_fillAttrs {fields : List Text} {isField : Text → Bool}
    (hfields : ∀ field, isField field = true ↔ field ∈ fields) {defaults own : Dict}
    (hdefaults : defaults.Distinct) (hown : own.Distinct) :
    Beneath fields defaults own (fillAttrs isField defaults own) := by
  have hunnamed := distinct_unnamedIn hdefaults isField
  rw [fillAttrs_eq]
  split
  case isTrue hempty =>
    have hnone : unnamedIn isField defaults = [] := List.isEmpty_iff.1 hempty
    refine ⟨hown, fun e he => ⟨e.1, he, .inl rfl⟩, fun e he hnames _ => ?_, fun e he => ?_⟩
    · have hmem := (mem_unnamedIn hfields).2 ⟨he, hnames⟩
      simp [hnone] at hmem
    · exact .inl ⟨e.1, he, .inl rfl⟩
  case isFalse =>
    refine ⟨hunnamed.update own, fun e he => Dict.holds_update_of_mem hown he _,
      fun e he hnames hother => ?_, fun e he => ?_⟩
    · have hmem := (mem_unnamedIn hfields).2 ⟨he, hnames⟩
      have hholds : (unnamedIn isField defaults).Holds e.1 e.2 := ⟨e.1, hmem, .inl rfl⟩
      exact hholds.update hother
    · rcases hunnamed.mem_update he with ⟨e', he', hvalue, hkey⟩ | ⟨he, hother⟩
      · refine .inl ⟨e'.1, hvalue ▸ he', ?_⟩
        exact hkey.imp Eq.symm Value.sameKey_symm
      · obtain ⟨hmem, hnames⟩ := (mem_unnamedIn hfields).1 he
        exact .inr ⟨hmem, hnames, hother⟩

theorem fillAttrs_fillAttrs {defaults : Dict} (h : defaults.Distinct)
    (hself : ∀ e ∈ defaults, e.1.sameKey e.1 = true) (isField : Text → Bool) (own : Dict) :
    fillAttrs isField defaults (fillAttrs isField defaults own) =
      fillAttrs isField defaults own := by
  simp only [fillAttrs_eq]
  split
  · rfl
  · have hunnamed := distinct_unnamedIn h isField
    exact Dict.update_update hunnamed (fun e he => hself e (List.mem_filter.1 he).1) own

/-! ## Variables and namespaces -/

namespace VarFacts

def fields : List (Text × (VarFacts → Value)) :=
  [("doc", doc), ("no_doc", noDoc), ("added", added), ("deprecated", deprecated), ("file", file),
   ("line", line), ("path", path)]

def fieldNames : List Text := "type" :: "arglists" :: fields.map Prod.fst

structure Overlaid (defaults : Dict) (f f' : VarFacts) : Prop where
  name : f'.name = f.name
  kind : f'.kind = f.kind
  arglists : f'.arglists = f.arglists
  fields : ∀ field ∈ VarFacts.fields, Fills defaults field.1 (field.2 f) (field.2 f')
  attrs : Beneath fieldNames defaults f.attrs f'.attrs

theorem isVarField_iff (field : Text) : isVarField field = true ↔ field ∈ fieldNames := by
  rw [isVarField, List.contains_iff_mem]
  exact List.Perm.mem_iff (by decide)

theorem field_overlay {field : Text × (VarFacts → Value)} (h : field ∈ fields) (defaults : Dict)
    (f : VarFacts) : field.2 (f.overlay defaults) = fill defaults field.1 (field.2 f) := by
  simp only [fields, List.mem_cons, List.not_mem_nil, or_false] at h
  rcases h with rfl | rfl | rfl | rfl | rfl | rfl | rfl <;> rfl

theorem overlaid_overlay {defaults : Dict} (hdefaults : defaults.Distinct) {f : VarFacts}
    (hf : f.attrs.Distinct) : f.Overlaid defaults (f.overlay defaults) where
  name := rfl
  kind := rfl
  arglists := rfl
  fields field hfield := by
    rw [field_overlay hfield]
    exact fills_fill defaults field.1 (field.2 f)
  attrs := beneath_fillAttrs isVarField_iff hdefaults hf

theorem overlay_overlay {defaults : Dict} (h : defaults.Distinct)
    (hself : ∀ e ∈ defaults, e.1.sameKey e.1 = true) (f : VarFacts) :
    (f.overlay defaults).overlay defaults = f.overlay defaults := by
  simp only [overlay, fill_fill, fillAttrs_fillAttrs h hself]

end VarFacts

namespace Namespace

def fields : List (Text × (Namespace → Value)) :=
  [("doc", doc), ("no_doc", noDoc), ("added", added), ("deprecated", deprecated),
   ("author", author)]

def fieldNames : List Text := fields.map Prod.fst

/-- The same of a namespace and, one for one, of its variables and their members. -/
structure Overlaid (defaults : Dict) (ns ns' : Namespace) : Prop where
  name : ns'.name = ns.name
  fields : ∀ field ∈ Namespace.fields, Fills defaults field.1 (field.2 ns) (field.2 ns')
  attrs : Beneath fieldNames defaults ns.attrs ns'.attrs
  publics : List.Forall₂ (Var.Related (VarFacts.Overlaid defaults)) ns.publics ns'.publics

/-- The metadata of the namespace and of all that it holds has different keys. -/
structure WellKeyed (ns : Namespace) : Prop where
  attrs : ns.attrs.Distinct
  publics : ∀ f ∈ Var.flattenAll ns.publics, f.attrs.Distinct

theorem isNamespaceField_iff (field : Text) :
    isNamespaceField field = true ↔ field ∈ fieldNames := by
  simp [isNamespaceField, fieldNames, fields]

theorem field_overlay {field : Text × (Namespace → Value)} (h : field ∈ fields) (defaults : Dict)
    (ns : Namespace) (publics : List Var) :
    field.2 { ns.overlay defaults with publics := publics } =
      fill defaults field.1 (field.2 ns) := by
  simp only [fields, List.mem_cons, List.not_mem_nil, or_false] at h
  rcases h with rfl | rfl | rfl | rfl | rfl <;> rfl

theorem overlaid_overlay {defaults : Dict} (hdefaults : defaults.Distinct) {ns : Namespace}
    (hns : ns.WellKeyed) :
    ns.Overlaid defaults { ns.overlay defaults with
      publics := Var.mapAll (VarFacts.overlay defaults) ns.publics } where
  name := rfl
  fields field hfield := by
    rw [field_overlay hfield]
    exact fills_fill defaults field.1 (field.2 ns)
  attrs := beneath_fillAttrs isNamespaceField_iff hdefaults hns.attrs
  publics := Var.related_mapAll ns.publics fun f hf =>
    VarFacts.overlaid_overlay hdefaults (hns.publics f hf)

theorem overlay_overlay {defaults : Dict} (h : defaults.Distinct)
    (hself : ∀ e ∈ defaults, e.1.sameKey e.1 = true) (ns : Namespace) (publics : List Var) :
    overlay defaults { ns.overlay defaults with publics := publics } =
      { ns.overlay defaults with publics := publics } := by
  simp only [overlay, fill_fill, fillAttrs_fillAttrs h hself]

end Namespace

/-! ## All namespaces -/

/-- Defaults keep what is there, at every depth; and if their keys are compared by value they add
nothing the second time. -/
theorem addDefaults_overlays {defaults : Dict} (hdefaults : defaults.Distinct)
    {nss : List Namespace} (hnss : ∀ ns ∈ nss, ns.WellKeyed) :
    List.Forall₂ (Namespace.Overlaid defaults) nss (addDefaults defaults nss) ∧
      ((∀ e ∈ defaults, e.1.sameKey e.1 = true) →
        addDefaults defaults (addDefaults defaults nss) = addDefaults defaults nss) := by
  constructor
  · rw [addDefaults, List.forall₂_map_right_iff, List.forall₂_same]
    exact fun ns hns => Namespace.overlaid_overlay hdefaults (hnss ns hns)
  · intro hself
    have hfacts : VarFacts.overlay defaults ∘ VarFacts.overlay defaults =
        VarFacts.overlay defaults :=
      funext (VarFacts.overlay_overlay hdefaults hself)
    rw [addDefaults, addDefaults, List.map_map]
    refine List.map_congr_left fun ns _ => ?_
    simp only [Function.comp_apply, Namespace.overlay_overlay hdefaults hself, Var.mapAll_mapAll,
      hfacts]

/-- Two spellings of one field, the second with null, a field of namespaces alone, and a key that
is no text. -/
def mixedDefaults : Dict :=
  [(.str "no-doc", .bool true), (.str "no_doc", .null), (.str "author", .str "a"),
   (.bool true, .str "yes")]

/-- A variable whose metadata has the key that is no text, spelled as a number, and a member. -/
def nestedNamespaces : List Namespace :=
  [{ name := some "n", author := .str "b",
     publics := [.mk { name := "f", attrs := [(.int 1, .str "one")] } [.mk { name := "g" } []]] }]

theorem addDefaults_mixedDefaults :
    mixedDefaults.Distinct ∧ (∀ ns ∈ nestedNamespaces, ns.WellKeyed) ∧
      List.Forall₂ (Namespace.Overlaid mixedDefaults) nestedNamespaces
        (addDefaults mixedDefaults nestedNamespaces) ∧
      addDefaults mixedDefaults (addDefaults mixedDefaults nestedNamespaces) =
        addDefaults mixedDefaults nestedNamespaces ∧
      (addDefaults mixedDefaults nestedNamespaces).flatMap (fun ns =>
          (Var.flattenAll ns.publics).map fun f => (Value.dict f.attrs).text) =
        ["\x7b'author': 'a', True: 'one'\x7d", "\x7b'author': 'a', True: 'yes'\x7d"] := by
  have hdistinct : mixedDefaults.Distinct := by
    unfold Dict.Distinct
    decide
  have hkeyed : ∀ ns ∈ nestedNamespaces, ns.WellKeyed := by
    intro ns hns
    obtain rfl := List.mem_singleton.1 hns
    refine ⟨List.Pairwise.nil, ?_⟩
    unfold Dict.Distinct
    decide
  have hvalue : ∀ e ∈ mixedDefaults, e.1.sameKey e.1 = true := by decide
  obtain ⟨hoverlaid, htwice⟩ := addDefaults_overlays hdistinct hkeyed
  refine ⟨hdistinct, hkeyed, hoverlaid, htwice hvalue, ?_⟩
  decide +kernel

end Docsmith
