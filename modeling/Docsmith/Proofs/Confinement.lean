import Docsmith.Proofs.Changes

/-!
# Where a run writes

The output directory takes every file that a run writes, but for the pages of namespaces
whose names hold a slash.  Such a name is a path of its own, and it may lead anywhere.
-/

namespace Docsmith

/-! ## Names without slashes -/

namespace Text

theorem splitOn_of_notMem {sep : CodePoint} {t : Text} (h : sep ∉ t) : splitOn sep t = [t] := by
  induction t with
  | nil => rfl
  | cons c t ih =>
      obtain ⟨hc, ht⟩ := not_or.1 (mt List.mem_cons.2 h)
      simp [splitOn, ih ht, Ne.symm hc]

theorem notMem_replaceAll {c : CodePoint} {new : Text} (hnew : c ∉ new) (t : Text) :
    c ∉ replaceAll [c] new t := by
  unfold replaceAll
  induction t with
  | nil => simp [replaceAll.go]
  | cons d t ih =>
      by_cases hd : c = d
      · simp [replaceAll.go, hd] at ih hnew ⊢
        exact ⟨hnew, ih⟩
      · simpa [replaceAll.go, hd] using ih

end Text

namespace Path

theorem names_resolve_child {name : Text} (h : name ≠ "..") (cwd p : Path) :
    (resolve cwd (p.child name)).names = (resolve cwd p).names ++ [name] := by
  have hjoin : (cwd.join (p.child name)).names = (cwd.join p).names ++ [name] := by
    unfold join child
    cases p.absolute <;> simp
  simp [resolve, hjoin, collapse, List.foldl_append, h]

theorem ofText_page {stem : Text} (h : ('/' : CodePoint) ∉ stem) :
    ofText (stem ++ ".html") = relative [stem ++ ".html"] := by
  have hslash : ('/' : CodePoint) ∉ stem ++ Text.ofString ".html" := by
    rw [List.mem_append, not_or]
    exact ⟨h, by decide⟩
  have hlength : 5 ≤ (stem ++ Text.ofString ".html").length := by
    rw [List.length_append]
    exact Nat.le_add_left 5 _
  generalize stem ++ Text.ofString ".html" = page at hslash hlength
  have hstart : page.startsWith "/" = false := by
    cases page with
    | nil => rfl
    | cons c page =>
        have hc : ¬('/' : CodePoint) = c := fun hc => hslash (hc ▸ List.mem_cons_self)
        simp [Text.startsWith, Text.ofString, List.isPrefixOf, hc]
  have hempty : page ≠ [] := by
    rintro rfl
    simp at hlength
  have hpoint : page ≠ "." := by
    rintro rfl
    simp [Text.ofString] at hlength
  simp [ofText, hstart, Text.splitOn_of_notMem hslash, hempty, hpoint, relative]

theorem names_resolve_page {stem : Text} (h : ('/' : CodePoint) ∉ stem) (cwd p : Path) :
    (resolve cwd (p.join (ofText (stem ++ ".html")))).names =
      (resolve cwd p).names ++ [stem ++ ".html"] := by
  have hpoints : stem ++ Text.ofString ".html" ≠ ".." := by
    intro heq
    have hlength := congrArg List.length heq
    simp [Text.ofString] at hlength
  rw [ofText_page h]
  exact names_resolve_child hpoints cwd p

end Path

/-! ## The output directory -/

def Options.Encloses (o : Options) (cwd : Path) (place : List Text) : Prop :=
  (Path.resolve cwd o.outputDir).names <+: place ∧
    (Path.resolve cwd o.outputDir).names.length < place.length

instance (o : Options) (cwd : Path) (place : List Text) : Decidable (o.Encloses cwd place) :=
  inferInstanceAs (Decidable (_ ∧ _))

namespace Options

theorem encloses_below (o : Options) (cwd : Path) (name : Text) :
    o.Encloses cwd ((Path.resolve cwd o.outputDir).names ++ [name]) :=
  ⟨List.prefix_append _ _, by simp⟩

theorem encloses_child {name : Text} (h : name ≠ "..") (o : Options) (cwd : Path) :
    o.Encloses cwd (Path.resolve cwd (o.outputDir.child name)).names := by
  rw [Path.names_resolve_child h]
  exact encloses_below o cwd name

def pagePlace (o : Options) (cwd : Path) (ns : Namespace) : List Text :=
  (Path.resolve cwd (o.outputDir.join (Path.ofText (namespaceFile ns.name)))).names

theorem encloses_pagePlace {ns : Namespace} (h : ('/' : CodePoint) ∉ ns.label) (o : Options)
    (cwd : Path) : o.Encloses cwd (o.pagePlace cwd ns) := by
  have hplace : o.pagePlace cwd ns = _ := Path.names_resolve_page h cwd o.outputDir
  rw [hplace]
  exact encloses_below o cwd _

theorem encloses_document (o : Options) (cwd : Path) (d : Document) :
    o.Encloses cwd
      (Path.resolve cwd (o.outputDir.join (Path.ofText (documentFile d.name)))).names := by
  have hname : ('/' : CodePoint) ∉ Text.replaceAll "/" "-" d.name :=
    Text.notMem_replaceAll (by decide) d.name
  rw [documentFile, Path.names_resolve_page hname]
  exact encloses_below o cwd _

end Options

theorem Site.mem_visible {s : Site} {ns : Namespace} :
    ns ∈ s.visible ↔ ns ∈ s.namespaces ∧ ns.noDoc.truthy = false := by
  simp [visible]

/-! ## Writers -/

open Docsmith.Action

variable {cwd : Path} {written : List Text → Prop}

theorem confined_linkBase (o : Options) (uri : Text) : Confined cwd written (linkBase o uri) := by
  unfold linkBase
  split
  · refine confined_bind (confined_lookUpCommit _) fun _ => ?_
    exact confined_bind (confined_ofExcept _) fun _ => confined_pure _
  · exact confined_pure _

theorem confined_sourceUri (o : Options) (f : VarFacts) :
    Confined cwd written (sourceUri o f) := by
  unfold sourceUri
  split
  · exact confined_pure _
  split
  · exact confined_pure _
  · refine confined_bind (confined_linkBase o _) fun _ => ?_
    refine confined_bind (confined_ofExcept _) fun _ => ?_
    exact confined_bind (confined_ofExcept _) fun _ => confined_pure _

namespace Writer

theorem confined_writePage {target : Path} (h : written (Path.resolve cwd target).names)
    (page : Markup) : Confined cwd written (writePage target page) :=
  confined_bind (confined_ofExcept _) fun t => confined_writeText h t

theorem confined_pageEntries (o : Options) (vs : List Var) :
    Confined cwd written (pageEntries o vs) := by
  induction vs with
  | nil => exact confined_pure _
  | cons v vs ih =>
      refine confined_bind (confined_sourceUri o _) fun _ => ?_
      exact confined_bind ih fun _ => confined_pure _

theorem confined_writeNamespace {o : Options} {ns : Namespace}
    (h : written (o.pagePlace cwd ns)) (frame : Frame) :
    Confined cwd written (writeNamespace o frame ns) :=
  confined_bind (confined_pageEntries _ _) fun _ => confined_writePage h _

theorem leaves_writeNamespace (o : Options) (frame : Frame) (ns : Namespace) :
    Leaves cwd (o.pagePlace cwd ns) (writeNamespace o frame ns) := by
  refine leaves_bind (confined_pageEntries _ _) fun _ => ?_
  exact leaves_bind (confined_ofExcept _) fun _ => leaves_writeText _ _

theorem confined_writeHtml {s : Site}
    (hinside : ∀ place, s.options.Encloses cwd place → written place)
    (hpages : ∀ ns ∈ s.visible, written (s.options.pagePlace cwd ns)) :
    Confined cwd written (writeHtml s) := by
  refine confined_bind (confined_ensureDirectory _) fun _ => ?_
  refine confined_bind
    (confined_writePage (hinside _ (Options.encloses_child (by decide) _ cwd)) _) fun _ => ?_
  refine confined_bind (confined_forM fun ns hns => confined_writeNamespace (hpages ns hns) _)
    fun _ => ?_
  refine confined_bind (confined_forM fun d _ => ?_) fun _ => confined_logAs _ _ _
  exact confined_writePage (hinside _ (Options.encloses_document _ cwd d)) _

theorem leaves_writeHtml {s : Site} {ns : Namespace} (h : ns ∈ s.visible) :
    Leaves cwd (s.options.pagePlace cwd ns) (writeHtml s) := by
  have hpages : ∀ ns ∈ s.frame.namespaces,
      Confined cwd (fun _ => True) (writeNamespace s.options s.frame ns) :=
    fun ns _ => confined_writeNamespace trivial _
  refine leaves_bind (confined_ensureDirectory _) fun _ => ?_
  refine leaves_bind (confined_writePage trivial _) fun _ => ?_
  refine (leaves_forM h hpages (leaves_writeNamespace _ _ ns)).bind (confined_forM hpages)
    fun _ => ?_
  refine confined_bind (confined_forM fun d _ => ?_) fun _ => confined_logAs _ _ _
  exact confined_writePage trivial _

mutual
theorem confined_varData (o : Options) (v : Var) : Confined cwd written (varData o v) := by
  cases v with
  | mk f ms =>
      refine confined_bind (confined_sourceUri o f) fun _ => ?_
      exact confined_bind (confined_membersData o ms) fun _ => confined_pure _

theorem confined_membersData (o : Options) (vs : List Var) :
    Confined cwd written (membersData o vs) := by
  cases vs with
  | nil => exact confined_pure _
  | cons v vs =>
      unfold membersData
      split
      · exact confined_membersData o vs
      · refine confined_bind (confined_varData o v) fun _ => ?_
        exact confined_bind (confined_membersData o vs) fun _ => confined_pure _
end

theorem confined_varsData (o : Options) (vs : List Var) :
    Confined cwd written (varsData o vs) := by
  induction vs with
  | nil => exact confined_pure _
  | cons v vs ih =>
      refine confined_bind (confined_varData o v) fun _ => ?_
      exact confined_bind ih fun _ => confined_pure _

theorem confined_namespacesData (o : Options) (nss : List Namespace) :
    Confined cwd written (namespacesData o nss) := by
  induction nss with
  | nil => exact confined_pure _
  | cons ns nss ih =>
      have hns : Confined cwd written (namespaceData o ns) :=
        confined_bind (confined_varsData o _) fun _ => confined_pure _
      refine confined_bind hns fun _ => ?_
      exact confined_bind ih fun _ => confined_pure _

theorem confined_writeJson {s : Site}
    (hinside : ∀ place, s.options.Encloses cwd place → written place) :
    Confined cwd written (writeJson s) := by
  have hdata : Confined cwd written (siteData s) :=
    confined_bind (confined_namespacesData _ _) fun _ => confined_pure _
  refine confined_bind hdata fun _ => ?_
  refine confined_bind (confined_ensureDirectory _) fun _ => ?_
  refine confined_bind (confined_ofExcept _) fun _ => ?_
  refine confined_bind (confined_writeText ?_ _) fun _ => confined_logAs _ _ _
  exact hinside _ (Options.encloses_child (by decide) _ cwd)

theorem confined_write (writer : Writer) {s : Site}
    (hinside : ∀ place, s.options.Encloses cwd place → written place)
    (hpages : writer = .html → ∀ ns ∈ s.visible, written (s.options.pagePlace cwd ns)) :
    Confined cwd written (writer.write s) := by
  cases writer with
  | html => exact confined_writeHtml hinside (hpages rfl)
  | json => exact confined_writeJson hinside

end Writer

/-! ## Runs -/

namespace Run

def Finds (o : Options) (w : Workspace) (nss : List Namespace) : Prop :=
  ∃ mid after, w.Alike mid ∧ readNamespaces o mid = (.ok nss, after)

/-- The page of a namespace that is shown and whose name holds a slash. -/
def SlashedPage (o : Options) (w : Workspace) (place : List Text) : Prop :=
  resolveWriter builtInWriters [] (.str o.writer) = .ok .html ∧
    ∃ nss, Finds o w nss ∧ ∃ ns ∈ nss, ns.noDoc.truthy = false ∧
      ('/' : CodePoint) ∈ ns.label ∧ place = o.pagePlace w.cwd ns

theorem changes_generate (o : Options) (w : Workspace) :
    w.Changes (fun place => o.Encloses w.cwd place ∨ SlashedPage o w place)
      (generate o w).2 := by
  refine changes_bind (confined_startCommit o.commit w rfl) fun _ mid hstart _ => ?_
  obtain ⟨-, rfl⟩ := Prod.mk.inj hstart
  have hstarted : w.Alike { w with commit := some o.commit } := ⟨rfl, rfl, .refl _⟩
  refine changes_bind (confined_ofExcept _ _ rfl) fun writer mid hresolve _ => ?_
  obtain ⟨hwriter, rfl⟩ := Prod.mk.inj hresolve
  refine changes_bind (confined_logAs _ _ _ _ rfl) fun _ mid hlog _ => ?_
  obtain ⟨-, rfl⟩ := Prod.mk.inj hlog
  have hbegun := hstarted.trans (Workspace.alike_record _
    ⟨loggerName logger, .debug, "Using writer " ++ writer.name⟩)
  refine changes_bind (confined_readNamespaces o _ hbegun.cwd) fun nss mid hread hcwd => ?_
  have hfinds : Finds o w nss := ⟨_, mid, hbegun, hread⟩
  refine confined_bind (confined_readDocuments o) (fun documents => ?_) mid
    (hcwd.trans hbegun.cwd)
  refine confined_bind (Writer.confined_write writer ?_ ?_) fun _ => ?_
  · exact fun place => .inl
  · intro hhtml ns hns
    by_cases hslash : ('/' : CodePoint) ∈ ns.label
    · obtain ⟨hmem, hshown⟩ := Site.mem_visible.1 hns
      exact .inr ⟨hhtml ▸ hwriter, nss, hfinds, ns, hmem, hshown, hslash, rfl⟩
    · exact .inl (Options.encloses_pagePlace hslash o w.cwd)
  · exact confined_bind (confined_logAs _ _ _) fun _ => confined_pure _

theorem exists_of_generate {o : Options} {w w' : Workspace} {site : Site}
    (h : generate o w = (.ok site, w')) :
    ∃ writer read done r, site.options = o ∧
      resolveWriter builtInWriters [] (.str o.writer) = .ok writer ∧
      w.Changes (fun _ => False) read ∧ writer.write site read = (.ok (), done) ∧
      w' = done.record r := by
  have hstep {α : Type} {x : Action α} {v last : Workspace} {a : α}
      (hconfined : Confined w.cwd (fun _ => False) x) (hv : w.Changes (fun _ => False) v)
      (hx : x v = (.ok a, last)) : w.Changes (fun _ => False) last := by
    have hchanges := hconfined v hv.cwd
    rw [hx] at hchanges
    exact hv.trans hchanges
  obtain ⟨_, started, hstart, h⟩ := exists_of_bind h
  obtain ⟨writer, resolved, hresolve, h⟩ := exists_of_bind h
  obtain ⟨hwriter, rfl⟩ := eq_of_ofExcept hresolve
  obtain ⟨_, named, hlog, h⟩ := exists_of_bind h
  obtain ⟨namespaces, found, hread, h⟩ := exists_of_bind h
  obtain ⟨documents, read, hdocuments, h⟩ := exists_of_bind h
  obtain ⟨_, done, hwrite, h⟩ := exists_of_bind h
  cases h
  have hstarted := hstep (confined_startCommit o.commit) (.refl w) hstart
  have hnamed := hstep (confined_logAs _ _ _) hstarted hlog
  have hfound := hstep (confined_readNamespaces o) hnamed hread
  exact ⟨writer, read, done, _, rfl, hwriter,
    hstep (confined_readDocuments o) hfound hdocuments, hwrite, rfl⟩

theorem holds_page_of_generate {o : Options} {w w' : Workspace} {site : Site}
    (h : generate o w = (.ok site, w'))
    (hhtml : resolveWriter builtInWriters [] (.str o.writer) = .ok .html) {ns : Namespace}
    (hns : ns ∈ site.visible) : w'.tree.Holds (o.pagePlace w.cwd ns) := by
  obtain ⟨writer, read, done, r, rfl, hwriter, hchanges, hwrite, rfl⟩ := exists_of_generate h
  obtain rfl := Except.ok.inj (hhtml.symm.trans hwriter)
  have hpage := Writer.leaves_writeHtml hns read _ done hchanges.cwd hwrite
  exact (Workspace.alike_record done r).tree.evolves.holds hpage

/-- Whatever becomes of a run, the files that it creates or changes are log files, lie in the
output directory, or are pages of namespaces whose names hold a slash.  A run that succeeds
has written these pages too. -/
theorem generate_writes_in_output (o : Options) (w : Workspace) :
    FileTree.Evolves
      (fun place => w.LogsTo place ∨ o.Encloses w.cwd place ∨ SlashedPage o w place)
      w.tree (generate o w).2.tree ∧
    ∀ site w', generate o w = (.ok site, w') →
      resolveWriter builtInWriters [] (.str o.writer) = .ok .html →
      ∀ ns ∈ site.visible, w'.tree.Holds (o.pagePlace w.cwd ns) :=
  ⟨(changes_generate o w).tree, fun _ _ h hhtml _ hns => holds_page_of_generate h hhtml hns⟩

def strayWorkspace : Workspace :=
  let source : Text := "(ns ../e)"
  { cwd := ⟨true, []⟩,
    tree := ⟨[(["a.clj"], .file (source.map fun c => c.toNat.toUInt8))]⟩ }

def strayOptions : Options :=
  { root := ⟨true, []⟩, sourcePaths := ["a.clj"], docFiles := some [], commit := .known .null }

/-- The page of `../e` is created next to the output directory, in a run that succeeds. -/
theorem generate_writes_beside_output :
    (generate strayOptions strayWorkspace).1.toBool = true ∧
      ¬FileTree.Evolves
        (fun place => strayWorkspace.LogsTo place ∨
          strayOptions.Encloses strayWorkspace.cwd place)
        strayWorkspace.tree (generate strayOptions strayWorkspace).2.tree := by
  obtain ⟨hdone, hsome, hfile⟩ : (generate strayOptions strayWorkspace).1.toBool = true ∧
      FileTree.entry? (generate strayOptions strayWorkspace).2.tree ["target", "e.html"] ≠ none ∧
      FileTree.entry? (generate strayOptions strayWorkspace).2.tree ["target", "e.html"] ≠
        some .directory := by decide +kernel
  have hnone : strayWorkspace.tree.entry? ["target", "e.html"] = none := by decide +kernel
  have houtside : ¬strayOptions.Encloses strayWorkspace.cwd ["target", "e.html"] := by
    decide +kernel
  refine ⟨hdone, fun h => ?_⟩
  rcases h ["target", "e.html"] with heq | ⟨-, hdirectory⟩ | ⟨hlogs | hinside, -⟩
  · exact hsome (heq.trans hnone)
  · exact hfile hdirectory
  · obtain ⟨l, hl, -⟩ := hlogs
    cases hl
  · exact houtside hinside

end Run

end Docsmith
