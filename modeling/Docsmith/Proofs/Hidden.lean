import Docsmith.Output.Writer
import Mathlib.Data.List.Forall2

/-!
# What is hidden has no influence

A writer does the same whether hidden namespaces, variables and members are there or not.
Pages tell only whether a variable has members at all, so there a hidden member may be
replaced by another one, but not left out.
-/

namespace Docsmith

/-! ## Lists item by item -/

theorem flatMap_eq_of_forall₂ {α β γ : Type} {r : α → β → Prop} {f : α → List γ}
    {g : β → List γ} {as : List α} {bs : List β} (h : List.Forall₂ r as bs)
    (hfg : ∀ a b, r a b → f a = g b) : as.flatMap f = bs.flatMap g := by
  induction h with
  | nil => rfl
  | cons hab _ ih => rw [List.flatMap_cons, List.flatMap_cons, hfg _ _ hab, ih]

theorem forall₂_mergeSort {α β : Type} {r : α → β → Prop} {le : α → α → Bool}
    {le' : β → β → Bool} (hle : ∀ a b a' b', r a a' → r b b' → le a b = le' a' b')
    {as : List α} {bs : List β} (h : List.Forall₂ r as bs) :
    List.Forall₂ r (as.mergeSort le) (bs.mergeSort le') := by
  obtain ⟨ps, hps, rfl, rfl⟩ : ∃ ps : List (α × β),
      (∀ p ∈ ps, r p.1 p.2) ∧ ps.map Prod.fst = as ∧ ps.map Prod.snd = bs := by
    induction h with
    | nil => exact ⟨[], by simp⟩
    | @cons a b as bs hab _ ih =>
        obtain ⟨ps, hps, rfl, rfl⟩ := ih
        exact ⟨(a, b) :: ps, by simpa using ⟨hab, fun a b => hps (a, b)⟩, rfl, rfl⟩
  have hleft : (ps.mergeSort fun p q => le p.1 q.1).map Prod.fst =
      (ps.map Prod.fst).mergeSort le := List.map_mergeSort fun _ _ _ _ => rfl
  have hright : (ps.mergeSort fun p q => le p.1 q.1).map Prod.snd =
      (ps.map Prod.snd).mergeSort le' :=
    List.map_mergeSort fun p hp q hq => hle _ _ _ _ (hps p hp) (hps q hq)
  rw [← hleft, ← hright, List.forall₂_map_left_iff, List.forall₂_map_right_iff, List.forall₂_same]
  exact fun p hp => hps p (List.mem_mergeSort.1 hp)

/-! ## Leaving out what is hidden -/

def Var.isHidden (v : Var) : Bool := v.facts.noDoc.truthy

mutual
def Var.withoutHidden : Var → Var
  | .mk f ms => .mk f (withoutHiddenAll ms)

def Var.withoutHiddenAll : List Var → List Var
  | [] => []
  | v :: vs => if v.isHidden then withoutHiddenAll vs else v.withoutHidden :: withoutHiddenAll vs
end

namespace Namespace

def withoutHidden (ns : Namespace) : Namespace :=
  { ns with publics := ns.publics.filter fun v => !v.isHidden }

def withoutAnyHidden (ns : Namespace) : Namespace :=
  { ns with publics := Var.withoutHiddenAll ns.publics }

end Namespace

namespace Site

def withoutHidden (s : Site) : Site :=
  { s with namespaces :=
      (s.namespaces.filter fun ns => !ns.noDoc.truthy).map Namespace.withoutHidden }

def withoutAnyHidden (s : Site) : Site :=
  { s with namespaces :=
      (s.namespaces.filter fun ns => !ns.noDoc.truthy).map Namespace.withoutAnyHidden }

end Site

@[simp] theorem Var.facts_withoutHidden (v : Var) : v.withoutHidden.facts = v.facts := by
  cases v
  rfl

theorem Var.withoutHiddenAll_eq (vs : List Var) :
    withoutHiddenAll vs = (vs.filter fun v => !v.isHidden).map withoutHidden := by
  induction vs with
  | nil => rfl
  | cons v vs ih =>
      rw [withoutHiddenAll, ih]
      by_cases hv : v.isHidden = true
      · simp [hv]
      · simp [hv]

/-- A change of namespaces that leaves their names and marks alone does not change which are
shown. -/
theorem Site.visible_map {f : Namespace → Namespace} (hlabel : ∀ ns, (f ns).label = ns.label)
    (hmark : ∀ ns, (f ns).noDoc = ns.noDoc) (s : Site) :
    Site.visible { s with
        namespaces := (s.namespaces.filter fun ns => !ns.noDoc.truthy).map f } =
      s.visible.map f := by
  have hfilter : ((s.namespaces.filter fun ns => !ns.noDoc.truthy).map f).filter
      (fun ns => !ns.noDoc.truthy) = (s.namespaces.filter fun ns => !ns.noDoc.truthy).map f := by
    simp [List.filter_map, Function.comp_def, hmark, List.filter_filter]
  rw [visible, visible, hfilter]
  exact (List.map_mergeSort fun a _ b _ => by rw [hlabel, hlabel]).symm

namespace Namespace

theorem visible_withoutHidden (ns : Namespace) : ns.withoutHidden.visible = ns.visible := by
  simp [visible, withoutHidden, Var.isHidden, List.filter_filter]

theorem visible_withoutAnyHidden (ns : Namespace) :
    ns.withoutAnyHidden.visible = ns.visible.map Var.withoutHidden := by
  have hfilter : (Var.withoutHiddenAll ns.publics).filter (fun v => !v.facts.noDoc.truthy) =
      (ns.publics.filter fun v => !v.facts.noDoc.truthy).map Var.withoutHidden := by
    simp [Var.withoutHiddenAll_eq, Var.isHidden, List.filter_map, Function.comp_def,
      List.filter_filter]
  rw [visible, withoutAnyHidden, hfilter, visible]
  exact (List.map_mergeSort fun a _ b _ => by simp [Var.name]).symm

end Namespace

/-! ## Replacing hidden members -/

mutual
/-- The second variable is the first one with other hidden members in place of some, at any
depth. -/
inductive Var.Replaces : Var → Var → Prop
  | mk {f : VarFacts} {ms ms' : List Var} (members : ReplacesAll ms ms') :
      Replaces (.mk f ms) (.mk f ms')

inductive Var.ReplacesAll : List Var → List Var → Prop
  | nil : ReplacesAll [] []
  | within {m m' : Var} {ms ms' : List Var} (first : Replaces m m') (rest : ReplacesAll ms ms') :
      ReplacesAll (m :: ms) (m' :: ms')
  | hidden {m m' : Var} {ms ms' : List Var} (first : m.isHidden = true)
      (other : m'.isHidden = true) (rest : ReplacesAll ms ms') :
      ReplacesAll (m :: ms) (m' :: ms')
end

/-- The second namespace is the first one with hidden members of its variables replaced. -/
def Namespace.Replaces (ns ns' : Namespace) : Prop :=
  ∃ publics, List.Forall₂ Var.Replaces ns.publics publics ∧ ns' = { ns with publics := publics }

/-- The second site is the first one with hidden members of variables replaced. -/
def Site.Replaces (s s' : Site) : Prop :=
  ∃ namespaces, List.Forall₂ Namespace.Replaces s.namespaces namespaces ∧
    s' = { s with namespaces := namespaces }

/-! ## What pages show -/

/-- Pages show the variables alike: they differ at most in members that are hidden and in what
members hold. -/
structure Var.ShowsAs (v v' : Var) : Prop where
  facts : v'.facts = v.facts
  members : v'.members.isEmpty = v.members.isEmpty
  shown : v'.visibleMembers.map Var.facts = v.visibleMembers.map Var.facts

structure Namespace.ShowsAs (ns ns' : Namespace) : Prop where
  name : ns'.name = ns.name
  doc : ns'.doc = ns.doc
  added : ns'.added = ns.added
  deprecated : ns'.deprecated = ns.deprecated
  publics : List.Forall₂ Var.ShowsAs ns.visible ns'.visible

theorem Var.ShowsAs.refl (v : Var) : v.ShowsAs v := ⟨rfl, rfl, rfl⟩

theorem Namespace.ShowsAs.label {ns ns' : Namespace} (h : ns.ShowsAs ns') :
    ns'.label = ns.label := by
  rw [Namespace.label, h.name, Namespace.label]

theorem Namespace.showsAs_withoutHidden (ns : Namespace) : ns.ShowsAs ns.withoutHidden := by
  refine ⟨rfl, rfl, rfl, rfl, ?_⟩
  rw [visible_withoutHidden]
  exact List.forall₂_same.2 fun v _ => .refl v

theorem Var.shown_of_replacesAll {ms ms' : List Var} (h : ReplacesAll ms ms') :
    ms'.isEmpty = ms.isEmpty ∧
      (ms'.filter fun m => !m.facts.noDoc.truthy).map Var.facts =
        (ms.filter fun m => !m.facts.noDoc.truthy).map Var.facts := by
  induction ms generalizing ms' with
  | nil =>
      cases h
      exact ⟨rfl, rfl⟩
  | cons m ms ih =>
      cases h with
      | within first rest =>
          obtain ⟨-, hshown⟩ := ih rest
          cases first with
          | @mk f _ _ _ =>
              refine ⟨rfl, ?_⟩
              by_cases hf : f.noDoc.truthy = true
              · simpa [Var.facts, hf] using hshown
              · simpa [Var.facts, hf] using hshown
      | hidden first other rest =>
          obtain ⟨-, hshown⟩ := ih rest
          rw [isHidden] at first other
          exact ⟨rfl, by simpa [first, other] using hshown⟩

theorem Var.Replaces.showsAs {v v' : Var} (h : v.Replaces v') : v.ShowsAs v' := by
  obtain ⟨members⟩ := h
  obtain ⟨hempty, hshown⟩ := shown_of_replacesAll members
  exact ⟨rfl, hempty, hshown⟩

theorem Namespace.Replaces.showsAs {ns ns' : Namespace} (h : ns.Replaces ns') :
    ns.ShowsAs ns' := by
  obtain ⟨publics, hpublics, rfl⟩ := h
  refine ⟨rfl, rfl, rfl, rfl, ?_⟩
  have hshows : List.Forall₂ Var.ShowsAs ns.publics publics :=
    hpublics.imp fun _ _ h => h.showsAs
  refine forall₂_mergeSort (fun a b a' b' ha hb => ?_) (List.rel_filter (fun a b h => ?_) hshows)
  · rw [Var.name, Var.name, Var.name, Var.name, ha.facts, hb.facts]
  · simp only [h.facts]

theorem Site.Replaces.showsAs {s s' : Site} (h : s.Replaces s') :
    List.Forall₂ Namespace.ShowsAs s.visible s'.visible := by
  obtain ⟨namespaces, hnamespaces, rfl⟩ := h
  have hshows := hnamespaces.imp fun ns ns' h => show ns.ShowsAs ns' ∧ ns'.noDoc = ns.noDoc from
    ⟨h.showsAs, by obtain ⟨publics, -, rfl⟩ := h; rfl⟩
  refine (forall₂_mergeSort (fun a b a' b' ha hb => ?_)
    (List.rel_filter (fun a b h => ?_) hshows)).imp fun _ _ h => h.1
  · rw [ha.1.label, hb.1.label]
  · simp only [h.2]

namespace Page

open Markup

theorem sidebar_congr {f f' : Frame} (hname : f'.name = f.name)
    (hdocuments : f'.documents = f.documents)
    (h : List.Forall₂ Namespace.ShowsAs f.namespaces f'.namespaces) : sidebar f' = sidebar f := by
  have hlist : namespaceList f'.namespaces = namespaceList f.namespaces := by
    unfold namespaceList
    rw [flatMap_eq_of_forall₂ h fun ns ns' h => by rw [← h.name, ← h.label]]
  rw [sidebar, sidebar, hname, hdocuments, hlist]

theorem index_congr {f f' : Frame} (hname : f'.name = f.name) (hversion : f'.version = f.version)
    (hdescription : f'.description = f.description) (hdocuments : f'.documents = f.documents)
    (h : List.Forall₂ Namespace.ShowsAs f.namespaces f'.namespaces) : index f' = index f := by
  have hentries : f'.namespaces.flatMap indexEntry = f.namespaces.flatMap indexEntry :=
    (flatMap_eq_of_forall₂ h fun ns ns' h => by
      rw [indexEntry, indexEntry, h.name, h.label, h.doc]).symm
  rw [index, index, layout, layout, sidebar_congr hname hdocuments h, hname, hversion,
    hdescription, hentries]

theorem entry_congr {v v' : Var} (h : v.ShowsAs v') (uri : Option Text) :
    entry ⟨v', uri⟩ = entry ⟨v, uri⟩ := by
  have hmember : ∀ m : Var, member m = member (.mk m.facts []) := fun m => by
    cases m
    rfl
  have hmembers : v'.visibleMembers.flatMap member = v.visibleMembers.flatMap member := by
    have hfacts : ∀ ms : List Var, ms.flatMap member =
        (ms.map Var.facts).flatMap fun f => member (.mk f []) := fun ms => by
      rw [List.flatMap_map]
      exact congrArg ms.flatMap (funext hmember)
    rw [hfacts, h.shown, ← hfacts]
  have hall : members v' = members v := by
    rw [members, members, h.members, hmembers]
  rw [entry, entry, h.facts, hall]

def around (f : Frame) (ns : Namespace) (entries : Markup) : Markup :=
  layout f (word ns.label ++ lit " documentation")
    (lit "<h1>" ++ word ns.label ++ lit "</h1>\n" ++ addedText ns.added
      ++ deprecatedText ns.deprecated ++ docText ns.doc ++ entries)

theorem around_congr {f f' : Frame} {ns ns' : Namespace} (hsidebar : sidebar f' = sidebar f)
    (h : ns.ShowsAs ns') : around f' ns' = around f ns := by
  funext entries
  rw [around, around, layout, layout, hsidebar, h.label, h.added, h.deprecated, h.doc]

end Page

/-! ## Writers -/

namespace Writer

theorem map_pageEntries_cons (o : Options) (v : Var) (vs : List Var) :
    List.flatMap Page.entry <$> pageEntries o (v :: vs) =
      sourceUri o v.facts >>= fun uri =>
        (Page.entry ⟨v, uri⟩ ++ ·) <$> (List.flatMap Page.entry <$> pageEntries o vs) := by
  simp only [pageEntries, map_bind, Functor.map_map, bind_pure_comp, List.flatMap_cons]

theorem map_pageEntries_congr {o : Options} {vs vs' : List Var}
    (h : List.Forall₂ Var.ShowsAs vs vs') :
    List.flatMap Page.entry <$> pageEntries o vs' =
      List.flatMap Page.entry <$> pageEntries o vs := by
  induction h with
  | nil => rfl
  | cons hv _ ih =>
      rw [map_pageEntries_cons, map_pageEntries_cons, ih, hv.facts]
      exact bind_congr fun uri => by rw [Page.entry_congr hv uri]

theorem writeNamespace_eq (o : Options) (frame : Frame) (ns : Namespace) :
    writeNamespace o frame ns =
      (List.flatMap Page.entry <$> pageEntries o ns.visible) >>= fun entries =>
        writePage (o.outputDir.join (Path.ofText (namespaceFile ns.name)))
          (Page.around frame ns entries) := by
  rw [bind_map_left]
  rfl

theorem writeNamespace_congr {o : Options} {frame frame' : Frame} {ns ns' : Namespace}
    (hsidebar : Page.sidebar frame' = Page.sidebar frame) (h : ns.ShowsAs ns') :
    writeNamespace o frame' ns' = writeNamespace o frame ns := by
  rw [writeNamespace_eq, writeNamespace_eq, map_pageEntries_congr h.publics, h.name]
  simp only [Page.around_congr hsidebar h]

theorem forM_eq_of_forall₂ {α β : Type} {r : α → β → Prop} {f : α → Action Unit}
    {g : β → Action Unit} {as : List α} {bs : List β} (h : List.Forall₂ r as bs)
    (hfg : ∀ a b, r a b → f a = g b) : as.forM f = bs.forM g := by
  induction h with
  | nil => rfl
  | cons hab _ ih => rw [List.forM, List.forM, hfg _ _ hab, ih]

theorem writeHtml_congr {s s' : Site} (hoptions : s'.options = s.options)
    (hdocuments : s'.documents = s.documents)
    (h : List.Forall₂ Namespace.ShowsAs s.visible s'.visible) : writeHtml s' = writeHtml s := by
  have hname : s'.frame.name = s.frame.name := by simp [Site.frame, hoptions]
  have hversion : s'.frame.version = s.frame.version := by simp [Site.frame, hoptions]
  have hdescription : s'.frame.description = s.frame.description := by simp [Site.frame, hoptions]
  have hsidebar : Page.sidebar s'.frame = Page.sidebar s.frame :=
    Page.sidebar_congr hname hdocuments h
  have hindex : Page.index s'.frame = Page.index s.frame :=
    Page.index_congr hname hversion hdescription hdocuments h
  have hpages : s'.frame.namespaces.forM (writeNamespace s.options s'.frame) =
      s.frame.namespaces.forM (writeNamespace s.options s.frame) :=
    (forM_eq_of_forall₂ h fun ns ns' h => (writeNamespace_congr hsidebar h).symm).symm
  have hdocument : writeDocument s.options s'.frame = writeDocument s.options s.frame := by
    funext d
    simp only [writeDocument, Page.ofDocument, Page.layout, hsidebar]
  have hlength : s'.frame.namespaces.length = s.frame.namespaces.length := h.length_eq.symm
  simp only [writeHtml, hoptions, hdocuments, hindex, hpages, hdocument, hlength]

theorem namespacesData_map {o : Options} {f : Namespace → Namespace}
    (hf : ∀ ns, namespaceData o (f ns) = namespaceData o ns) (nss : List Namespace) :
    namespacesData o (nss.map f) = namespacesData o nss := by
  induction nss with
  | nil => rfl
  | cons ns nss ih => simp only [List.map_cons, namespacesData, hf, ih]

theorem writeJson_congr {s s' : Site} (hoptions : s'.options = s.options)
    (hdocuments : s'.documents = s.documents)
    (h : namespacesData s.options s'.visible = namespacesData s.options s.visible) :
    writeJson s' = writeJson s := by
  simp only [writeJson, siteData, hoptions, hdocuments, h]

mutual
theorem varData_withoutHidden (o : Options) (v : Var) :
    varData o v.withoutHidden = varData o v := by
  cases v with
  | mk f ms => simp only [Var.withoutHidden, varData, membersData_withoutHiddenAll o ms]

theorem membersData_withoutHiddenAll (o : Options) (vs : List Var) :
    membersData o (Var.withoutHiddenAll vs) = membersData o vs := by
  cases vs with
  | nil => rfl
  | cons v vs =>
      rw [Var.withoutHiddenAll, membersData, ← Var.isHidden]
      by_cases hv : v.isHidden = true
      · simp only [hv, if_true, membersData_withoutHiddenAll o vs]
      · have hstays : v.withoutHidden.facts.noDoc.truthy = false := by
          rw [Var.facts_withoutHidden]
          exact Bool.not_eq_true _ ▸ hv
        simp only [hv, hstays, membersData, Bool.false_eq_true, if_false,
          varData_withoutHidden o v, membersData_withoutHiddenAll o vs]
end

theorem varsData_withoutHidden (o : Options) (vs : List Var) :
    varsData o (vs.map Var.withoutHidden) = varsData o vs := by
  induction vs with
  | nil => rfl
  | cons v vs ih => simp only [List.map_cons, varsData, varData_withoutHidden, ih]

theorem writeJson_withoutHidden (s : Site) : writeJson s.withoutHidden = writeJson s := by
  have hvisible : s.withoutHidden.visible = s.visible.map Namespace.withoutHidden :=
    s.visible_map (f := Namespace.withoutHidden) (fun _ => rfl) fun _ => rfl
  refine writeJson_congr rfl rfl ?_
  rw [hvisible]
  exact namespacesData_map (fun ns => by
    rw [namespaceData, Namespace.visible_withoutHidden, namespaceData]; rfl) _

theorem writeJson_withoutAnyHidden (s : Site) : writeJson s.withoutAnyHidden = writeJson s := by
  have hvisible : s.withoutAnyHidden.visible = s.visible.map Namespace.withoutAnyHidden :=
    s.visible_map (f := Namespace.withoutAnyHidden) (fun _ => rfl) fun _ => rfl
  refine writeJson_congr rfl rfl ?_
  rw [hvisible]
  exact namespacesData_map (fun ns => by
    rw [namespaceData, Namespace.visible_withoutAnyHidden, varsData_withoutHidden, namespaceData]
    rfl) _

theorem writeHtml_withoutHidden (s : Site) : writeHtml s.withoutHidden = writeHtml s := by
  have hvisible : s.withoutHidden.visible = s.visible.map Namespace.withoutHidden :=
    s.visible_map (f := Namespace.withoutHidden) (fun _ => rfl) fun _ => rfl
  refine writeHtml_congr rfl rfl ?_
  rw [hvisible, List.forall₂_map_right_iff, List.forall₂_same]
  exact fun ns _ => ns.showsAs_withoutHidden

/-- Whatever the workspace, what is hidden changes nothing: neither the files that are written,
nor a failure, nor the commits that are looked up.  Of hidden members the data file shows
nothing, and pages show no more than that there are some. -/
theorem write_ignores_hidden (s : Site) :
    (∀ writer : Writer, writer.write s.withoutHidden = writer.write s) ∧
      Writer.json.write s.withoutAnyHidden = Writer.json.write s ∧
      ∀ s', s.Replaces s' → Writer.html.write s' = Writer.html.write s := by
  refine ⟨fun writer => ?_, writeJson_withoutAnyHidden s, fun s' h => ?_⟩
  · cases writer with
    | html => exact writeHtml_withoutHidden s
    | json => exact writeJson_withoutHidden s
  · have hshows := h.showsAs
    obtain ⟨namespaces, -, rfl⟩ := h
    exact writeHtml_congr rfl rfl hshows

/-- A protocol with a member that is shown and one that is hidden. -/
def protocolSite (hidden : Text) : Site :=
  let members : List Var := [.mk { name := hidden, noDoc := .bool true } [], .mk { name := "f" } []]
  { options := { root := ⟨true, []⟩, commit := .known .null },
    namespaces := [{ name := some "a", publics := [.mk { name := "P" } members] }],
    documents := [] }

/-- The hidden member may have another name; its place is still taken. -/
theorem write_protocolSite :
    (protocolSite "g").Replaces (protocolSite "h") ∧
      Writer.html.write (protocolSite "h") = Writer.html.write (protocolSite "g") := by
  have hreplaces : (protocolSite "g").Replaces (protocolSite "h") := by
    refine ⟨_, .cons ⟨_, .cons (.mk ?_) .nil, rfl⟩ .nil, rfl⟩
    exact .hidden rfl rfl (.within (.mk .nil) .nil)
  exact ⟨hreplaces, (write_ignores_hidden _).2.2 _ hreplaces⟩

end Writer

end Docsmith
