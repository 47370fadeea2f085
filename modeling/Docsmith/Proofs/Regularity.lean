import Docsmith.Proofs.Nesting
import Docsmith.Proofs.Privacy
import Docsmith.Proofs.Readings

/-!
# Records as the later stages expect them

Whatever stands in a source text, a variable that is read from it names its file and a line,
is of a known kind, and has texts where texts are expected.  Only protocols have members, which
are plain functions that begin behind their protocol.  No metadata is left under a name that a
field has taken or that says nothing of interest.
-/

namespace Docsmith

def Text.Bracketed (t : Text) : Prop := ∃ inner : Text, t = "[" ++ inner ++ "]"

def Dict.Free (names : List Text) (d : Dict) : Prop :=
  ∀ e ∈ d, ∃ name : Text, e.1 = .str name ∧ name ∉ names

structure Var.IsMember (file : Text) (n : Nat) (m : Var) : Prop where
  made : m.facts.Made file
  kind : m.facts.kind = "fn"
  childless : m.members = []
  attrs : m.facts.attrs = []
  arglists : ∀ a ∈ m.facts.arglists, a.Bracketed
  line : ∃ k : Nat, m.facts.line = .int k ∧ n ≤ k

def suppliedNames : List Text := ["private", "line", "column", "file", "end-line", "end-column"]

/-- A variable that is read from a file, with or without macros. -/
structure Var.Regular (macros : Bool) (file : Text) (v : Var) : Prop where
  made : v.facts.Made file
  kind : v.facts.kind ∈ [Text.ofString "var", "fn", "macro", "multimethod", "protocol"]
  macros : v.facts.kind = "macro" → macros = true
  arglists : ∀ a ∈ v.facts.arglists, a.Bracketed
  attrs : v.facts.attrs.Free
    ([Text.ofString "doc", "arglists", "no-doc", "added", "deprecated"] ++ suppliedNames)
  protocol : v.members ≠ [] → v.facts.kind = "protocol"
  line : ∃ n : Nat, v.facts.line = .int n ∧ 1 ≤ n ∧ ∀ m ∈ v.members, m.IsMember file n

structure Namespace.Regular (macros : Bool) (file : Text) (ns : Namespace) : Prop where
  publics : ∀ v ∈ ns.publics, v.Regular macros file
  attrs : ns.attrs.Free
    ([Text.ofString "doc", "author", "no-doc", "added", "deprecated"] ++ suppliedNames)

namespace Definition

/-! ## Argument lists and metadata -/

theorem bracketed_of_write {f : Form} {t : Text} (hf : f.isVector = true) (h : write f = .ok t) :
    t.Bracketed := by
  have ht : t = f.render := by
    unfold write at h
    split at h
    · exact (Except.ok.inj h).symm
    · cases h
  unfold Form.isVector at hf
  split at hf
  · exact ⟨_, ht⟩
  · cases hf

theorem bracketed_of_writeAll {fs : List Form} {ts : List Text}
    (hfs : ∀ f ∈ fs, f.isVector = true) (h : writeAll fs = .ok ts) : ∀ t ∈ ts, t.Bracketed := by
  have hwrites := forall₂_of_mapM_eq_ok h
  clear h
  induction hwrites with
  | nil => simp
  | cons hfirst _ ih =>
      obtain ⟨hf, hrest⟩ := List.forall_mem_cons.1 hfs
      exact List.forall_mem_cons.2 ⟨bracketed_of_write hf hfirst, ih hrest⟩

theorem isVector_of_mem_arityVectors (body : List Form) :
    ∀ f ∈ arityVectors body, f.isVector = true := by
  intro f hf
  unfold arityVectors at hf
  split at hf
  · obtain rfl := List.mem_singleton.1 hf
    rfl
  · obtain ⟨arity, -, harity⟩ := List.mem_filterMap.1 hf
    split at harity
    · cases harity
      rfl
    · cases harity

theorem isVector_of_mem_explicitVectors (f : Form) :
    ∀ v ∈ explicitVectors f, v.isVector = true := by
  intro v hv
  unfold explicitVectors at hv
  split at hv
  · exact (List.mem_filter.1 hv).2
  · exact (List.mem_filter.1 hv).2
  · cases hv

theorem free_of_extraAttrs {fields : List Text} {attrs : Attrs} {d : Dict}
    (h : extraAttrs (withoutFields fields attrs) = .ok d) : d.Free (fields ++ suppliedNames) := by
  obtain ⟨table, hnames, rfl⟩ := exists_table_of_mapM h
  intro e he
  obtain ⟨⟨name, value⟩, hmem, rfl⟩ := List.mem_map.1 he
  have hname : name ∈ table.map Prod.fst := List.mem_map_of_mem hmem
  rw [hnames] at hname
  obtain ⟨entry, hentry, rfl⟩ := List.mem_map.1 hname
  obtain ⟨hkept, hsupplied⟩ := List.mem_filter.1 hentry
  have hfield := (List.mem_filter.1 hkept).2
  refine ⟨entry.1, rfl, ?_⟩
  simp_all [isDropped, suppliedNames]

/-! ## Variables -/

theorem isMember_of_members {file : Text} {n : Nat} {forms : List Form} {vars : List Var}
    (hforms : ∀ f ∈ forms, f.StartsFrom n) (h : members file forms = .ok vars) :
    ∀ v ∈ vars, v.IsMember file n := by
  fun_induction members file forms generalizing vars with
  | case1 =>
      cases h
      simp
  | case2 _ _ rest ih => exact ih (fun f hf => hforms f (by simp [hf])) h
  | case3 line name attrs signature rest ih =>
      obtain ⟨hfirst, hrest⟩ := List.forall_mem_cons.1 hforms
      obtain ⟨arglists, harglists, h⟩ := exists_of_bind_eq_ok h
      obtain ⟨more, hmore, h⟩ := exists_of_bind_eq_ok h
      cases h
      have hvectors := bracketed_of_writeAll (fun f hf => (List.mem_filter.1 hf).2) harglists
      refine List.forall_mem_cons.2 ⟨?_, ih hrest hmore⟩
      refine ⟨?_, rfl, rfl, rfl, hvectors, line, rfl, (Form.startsFrom_coll_iff.1 hfirst).1⟩
      exact ⟨textual_textOnly _, Value.textual_null, Value.textual_null, rfl, ⟨line, rfl⟩, rfl⟩
  | case4 _ rest _ _ ih => exact ih (List.forall_mem_cons.1 hforms).2 h

/-- The parts of a definition that begins on line `n`. -/
structure Body.Regular (kind file : Text) (n : Nat) (b : Body) : Prop where
  vectors : ∀ f ∈ b.vectors, f.isVector = true
  members : ∀ v ∈ b.members, v.IsMember file n
  protocol : b.members ≠ [] → kind = "protocol"

theorem Body.Regular.listed {kind file : Text} {n : Nat} {b : Body} (h : b.Regular kind file n) :
    ∀ f ∈ b.listed, f.isVector = true := by
  unfold Body.listed
  split
  · exact isVector_of_mem_explicitVectors _
  · exact h.vectors

theorem takeDoc_subset (rest : List Form) : (takeDoc rest).2 ⊆ rest := by
  unfold takeDoc
  split
  · exact List.subset_cons_self _ _
  · exact List.Subset.refl _

theorem subset_of_takeAttrs {attrs attrs' : Attrs} {rest rest' : List Form}
    (h : takeAttrs attrs rest = .ok (attrs', rest')) : rest' ⊆ rest := by
  unfold takeAttrs at h
  split at h
  · obtain ⟨more, -, h⟩ := exists_of_bind_eq_ok h
    cases h
    exact List.subset_cons_self _ _
  · cases h
    exact List.Subset.refl _

theorem regular_of_bodyOf {kind file : Text} {n : Nat} {attrs : Attrs} {rest : List Form}
    {b : Body} (hrest : ∀ f ∈ rest, f.StartsFrom n) (h : bodyOf kind file attrs rest = .ok b) :
    b.Regular kind file n := by
  have hplain (doc : Option Form) (attrs : Attrs) {vectors : List Form}
      (hvectors : ∀ f ∈ vectors, f.isVector = true) :
      Body.Regular kind file n ⟨doc, attrs, vectors, []⟩ := by
    constructor
    · exact hvectors
    · simp
    · simp
  unfold bodyOf at h
  split at h
  · cases h
    exact hplain _ _ (by simp)
  · obtain ⟨⟨attrs', rest'⟩, htaken, h⟩ := exists_of_bind_eq_ok h
    have hsubset := List.Subset.trans (subset_of_takeAttrs htaken) (takeDoc_subset rest)
    simp only at h
    split at h
    case isTrue hkind =>
      obtain ⟨vars, hvars, h⟩ := exists_of_bind_eq_ok h
      cases h
      constructor
      · simp
      · exact isMember_of_members (fun f hf => hrest f (hsubset hf)) hvars
      · exact fun _ => hkind
    case isFalse =>
      split at h
      · cases h
        exact hplain _ _ (isVector_of_mem_arityVectors rest')
      · cases h
        exact hplain _ _ (by simp)

theorem regular_of_toVar {macros : Bool} {name kind file : Text} {line : Nat} {b : Body} {v : Var}
    (hkind : kind ∈ [Text.ofString "var", "fn", "macro", "multimethod", "protocol"])
    (hmacros : kind = "macro" → macros = true) (hline : 1 ≤ line)
    (hbody : b.Regular kind file line) (made : v.facts.Made file)
    (h : toVar name kind file line b = .ok v) : v.Regular macros file := by
  obtain ⟨arglists, added, deprecated, attrs, harglists, -, -, hattrs, rfl⟩ := exists_of_toVar h
  refine ⟨made, hkind, hmacros, ?_, ?_, hbody.protocol, line, rfl, hline, hbody.members⟩
  · exact bracketed_of_writeAll hbody.listed harglists
  · intro e he
    obtain ⟨name, hname, hfree⟩ := free_of_extraAttrs hattrs e he
    exact ⟨name, hname, by simp_all⟩

theorem regular_factory {macros : Bool} {file name doc arglist : Text} {line : Nat}
    (hlist : arglist.Bracketed) (hline : 1 ≤ line) :
    (Var.mk
      { name := name, kind := "fn", doc := .str doc, arglists := [arglist], file := .str file,
        line := .int line } []).Regular macros file := by
  refine ⟨?_, by simp [Var.facts], nofun, ?_, nofun, ?_, line, rfl, hline, nofun⟩
  · exact ⟨Value.textual_str doc, Value.textual_null, Value.textual_null, rfl, ⟨line, rfl⟩, rfl⟩
  · simpa [Var.facts] using hlist
  · simp [Var.members]

theorem regular_of_factories {macros isRecord : Bool} {ns file name fields : Text} {line : Nat}
    (hfields : fields.Bracketed) (hline : 1 ≤ line) :
    ∀ v ∈ factories isRecord ns file name line fields, v.Regular macros file := by
  have hmap : Text.Bracketed "[m]" := ⟨"m", rfl⟩
  intro v hv
  obtain ⟨own, doc, arglist, rfl, rfl | rfl⟩ := exists_of_mem_factories hv
  · exact regular_factory hfields hline
  · exact regular_factory hmap hline

theorem regular_of_publics {macros : Bool} {ns file head : Text} {line : Nat} {rest : List Form}
    {vars : List Var} (hline : 1 ≤ line) (hrest : ∀ f ∈ rest, f.StartsFrom line)
    (h : publics macros ns file head line rest = .ok vars) : ∀ v ∈ vars, v.Regular macros file := by
  have hkinds : ∀ e ∈ kinds,
      e.2 ∈ [Text.ofString "var", "fn", "macro", "multimethod", "protocol"] := by decide
  have hmade := made_of_publics h
  cases publishes_of_publics h with
  | nothing => simp
  | factories _ writes => exact regular_of_factories (bracketed_of_write rfl writes) hline
  | @single name kind attrs body b v known visible reads made =>
      obtain ⟨e, he, rfl⟩ := Option.map_eq_some_iff.1 known
      have hbody := regular_of_bodyOf (List.forall_mem_cons.1 hrest).2 reads
      have hfacts : v.facts.Made file := by
        apply hmade
        cases v
        simp [Var.flattenAll, Var.flatten, Var.facts]
      simp only [List.mem_singleton, forall_eq]
      exact regular_of_toVar (hkinds e (List.mem_of_find?_eq_some he)) visible hline hbody hfacts
        made

/-! ## Namespaces -/

theorem regular_of_ofForms {macros : Bool} {file : Text} {forms : List Form} {ns : Namespace}
    (hforms : ∀ f ∈ forms, f.StartsFrom 1 ∧ f.Nested)
    (h : ofForms macros file forms = .ok (some ns)) : ns.Regular macros file := by
  obtain ⟨before, first, hd, rest, vars, rfl, -, -, hvars, hns⟩ := exists_header_of_ofForms h
  obtain ⟨attrs, body, added, deprecated, extra, -, -, -, hextra, rfl⟩ :=
    exists_of_namespaceOf hns
  constructor
  · intro v hv
    obtain ⟨line, head, attrs, rest', part, hmem, hpart, hv⟩ := exists_of_mem_publicsOf hvars hv
    have hform := List.mem_append_right before (List.mem_cons_of_mem first hmem)
    obtain ⟨hstarts, hnested⟩ := hforms _ hform
    have hline := (Form.startsFrom_coll_iff.1 hstarts).1
    obtain ⟨-, hrest⟩ := List.forall_mem_cons.1 (Form.nested_coll_iff.1 hnested)
    exact regular_of_publics hline (fun f hf => (hrest f hf).1) hpart v hv
  · exact free_of_extraAttrs hextra

end Definition

namespace Dialect

/-- Every namespace that is read from a text is regular, whatever the text.  The dialect without
macros reports none. -/
theorem regular_of_namespaceOfText {d : Dialect} {file : SourceFile} {text : Text}
    {ns : Namespace} (h : d.namespaceOfText file (.ok text) = .ok (some ns)) :
    ns.Regular d.macros file.relativeName ∧
      (d = clojurescript → ∀ v ∈ ns.publics, v.isMacro = false) := by
  have hregular : ns.Regular d.macros file.relativeName := by
    unfold namespaceOfText at h
    simp only at h
    split at h
    case h_1 => cases h
    case h_2 forms hforms =>
      exact Definition.regular_of_ofForms (Form.nested_of_readAll hforms) h
  refine ⟨hregular, ?_⟩
  rintro rfl v hv
  simp only [Var.isMacro, decide_eq_false_iff_not]
  intro hmacro
  cases (hregular.publics v hv).macros hmacro

/-- A protocol over several lines, a record, and a macro that says what its arguments are. -/
def assortedText : Text :=
  "(ns a)\n(defprotocol P\n (f [x] [x y]))\n(defrecord R [b])\n" ++
    "(defmacro ^\x7b:arglists ([q]) :since 2\x7d m [])"

/-- The macro is reported where there are macros, and all that is reported is regular. -/
theorem regular_of_namespaceOfText_assortedText :
    (∃ ns, clojure.namespaceOfText markedFile (.ok assortedText) = .ok (some ns) ∧
      ns.publics.map Var.name = ["P", "->R", "map->R", "m"] ∧ ns.Regular true "a.clj") ∧
    ∃ ns, clojurescript.namespaceOfText markedFile (.ok assortedText) = .ok (some ns) ∧
      ns.publics.map Var.name = ["P", "->R", "map->R"] ∧ ns.Regular false "a.clj" ∧
      ∀ v ∈ ns.publics, v.isMacro = false := by
  have hfull : (clojure.namespaceOfText markedFile (.ok assortedText)).toOption.map
      (Option.map fun ns => ns.publics.map Var.name) =
        some (some [Text.ofString "P", "->R", "map->R", "m"]) := by decide +kernel
  have hless : (clojurescript.namespaceOfText markedFile (.ok assortedText)).toOption.map
      (Option.map fun ns => ns.publics.map Var.name) =
        some (some [Text.ofString "P", "->R", "map->R"]) := by decide +kernel
  constructor
  · obtain ⟨ns, hns, hnames⟩ := exists_namespace_of_names hfull
    exact ⟨ns, hns, hnames, (regular_of_namespaceOfText hns).1⟩
  · obtain ⟨ns, hns, hnames⟩ := exists_namespace_of_names hless
    obtain ⟨hregular, hmacros⟩ := regular_of_namespaceOfText hns
    exact ⟨ns, hns, hnames, hregular, hmacros rfl⟩

end Dialect

end Docsmith
