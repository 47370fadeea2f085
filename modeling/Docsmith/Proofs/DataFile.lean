import Docsmith.Proofs.Serialisable

/-!
# Which runs can be written as data

What a run has read from its sources goes into one data file.  Names, documentation, versions
and paths are texts and can always be written; whether the whole can be depends on the other
metadata that is shown.
-/

namespace Docsmith

/-! ## What is shown -/

mutual
/-- The facts of a variable and of its members that are shown. -/
def Var.shown : Var → List VarFacts
  | .mk facts members => facts :: shownAll members

def Var.shownAll : List Var → List VarFacts
  | [] => []
  | v :: vs => (if v.facts.noDoc.truthy then [] else v.shown) ++ shownAll vs
end

/-- The metadata of the variable, and its line, can be written as data. -/
def VarFacts.serialisable (f : VarFacts) : Bool :=
  f.line.serialisable && (Value.dict f.attrs).serialisable

/-- So can the metadata of the namespace and of all in it that is shown. -/
def Namespace.serialisable (ns : Namespace) : Bool :=
  (Value.dict ns.attrs).serialisable &&
    ns.visible.all fun v => v.shown.all VarFacts.serialisable

/-- The fields that hold no numbers and no collections. -/
structure VarFacts.Plain (f : VarFacts) : Prop where
  doc : f.doc.Textual
  added : f.added.Textual
  deprecated : f.deprecated.Textual
  path : f.path.Textual

structure Namespace.Plain (ns : Namespace) : Prop where
  doc : ns.doc.Textual
  added : ns.added.Textual
  deprecated : ns.deprecated.Textual
  author : ns.author.Textual
  publics : ∀ f ∈ Var.flattenAll ns.publics, f.Plain

namespace Writer

open Docsmith.Action

/-! ## Data without links -/

variable {o : Options}

theorem sourceUri_of_unlinked (unlinked : o.srcDirUri = none) (w : Workspace) (f : VarFacts) :
    sourceUri o f w = (.ok none, w) := by
  rw [sourceUri, unlinked]
  rfl

mutual
theorem exists_varData (unlinked : o.srcDirUri = none) (w : Workspace) :
    (v : Var) → (∀ f ∈ v.flatten, f.Plain) → ∃ d, varData o v w = (.ok d, w) ∧
      (d.serialisable = true ↔ ∀ f ∈ v.shown, f.serialisable = true)
  | .mk f ms, hplain => by
      obtain ⟨hf, hms⟩ := List.forall_mem_cons.1 hplain
      obtain ⟨ds, hds, hserialisable⟩ := exists_membersData unlinked w ms hms
      rw [varData, bind_of_ok (sourceUri_of_unlinked unlinked w f), bind_of_ok hds]
      refine ⟨_, rfl, ?_⟩
      have hmembers : (Value.list ds).serialisable = true ↔
          ∀ f ∈ Var.shownAll ms, f.serialisable = true := by
        rw [Value.serialisable, Value.serialisableItems_iff, hserialisable]
      rw [Value.serialisable_record, Var.shown]
      simp [hmembers, VarFacts.serialisable, hf.doc.serialisable, hf.added.serialisable,
        hf.deprecated.serialisable, hf.path.serialisable, Value.serialisable_texts,
        (Value.textual_str _).serialisable, Value.Textual.serialisable ⟨none, rfl⟩, and_assoc]

theorem exists_membersData (unlinked : o.srcDirUri = none) (w : Workspace) :
    (vs : List Var) → (∀ f ∈ Var.flattenAll vs, f.Plain) → ∃ ds, membersData o vs w = (.ok ds, w) ∧
      ((∀ d ∈ ds, d.serialisable = true) ↔ ∀ f ∈ Var.shownAll vs, f.serialisable = true)
  | [], _ => ⟨[], rfl, by simp [Var.shownAll]⟩
  | v :: vs, hplain => by
      obtain ⟨hv, hvs⟩ := List.forall_mem_append.1 hplain
      obtain ⟨ds, hds, hserialisable⟩ := exists_membersData unlinked w vs hvs
      rw [membersData, Var.shownAll]
      split
      · exact ⟨ds, hds, by simpa using hserialisable⟩
      · obtain ⟨d, hd, hfirst⟩ := exists_varData unlinked w v hv
        refine ⟨d :: ds, ?_, ?_⟩
        · rw [bind_of_ok hd, bind_of_ok hds]
          rfl
        · rw [List.forall_mem_cons, List.forall_mem_append, hfirst, hserialisable]
end

theorem exists_varsData (unlinked : o.srcDirUri = none) (w : Workspace) {vs : List Var}
    (hplain : ∀ v ∈ vs, ∀ f ∈ v.flatten, f.Plain) :
    ∃ ds, varsData o vs w = (.ok ds, w) ∧
      ((∀ d ∈ ds, d.serialisable = true) ↔
        ∀ v ∈ vs, ∀ f ∈ v.shown, f.serialisable = true) := by
  induction vs with
  | nil => exact ⟨[], rfl, by simp⟩
  | cons v vs ih =>
      obtain ⟨hv, hvs⟩ := List.forall_mem_cons.1 hplain
      obtain ⟨d, hd, hfirst⟩ := exists_varData unlinked w v hv
      obtain ⟨ds, hds, hserialisable⟩ := ih hvs
      refine ⟨d :: ds, ?_, ?_⟩
      · rw [varsData, bind_of_ok hd, bind_of_ok hds]
        rfl
      · rw [List.forall_mem_cons, List.forall_mem_cons, hfirst, hserialisable]

theorem exists_namespaceData (unlinked : o.srcDirUri = none) (w : Workspace) {ns : Namespace}
    (hplain : ns.Plain) :
    ∃ d, namespaceData o ns w = (.ok d, w) ∧
      (d.serialisable = true ↔ ns.serialisable = true) := by
  have hvisible : ∀ v ∈ ns.visible, ∀ f ∈ v.flatten, f.Plain := by
    intro v hv f hf
    have hv : v ∈ ns.publics := (List.mem_filter.1 (List.mem_mergeSort.1 hv)).1
    exact hplain.publics f (Var.mem_flattenAll.2 ⟨v, hv, hf⟩)
  obtain ⟨ds, hds, hserialisable⟩ := exists_varsData unlinked w hvisible
  rw [namespaceData, bind_of_ok hds]
  refine ⟨_, rfl, ?_⟩
  have hname : (Value.ofText? ns.name).serialisable = true :=
    Value.Textual.serialisable ⟨ns.name, rfl⟩
  have hpublics : (Value.list ds).serialisable = true ↔
      ∀ v ∈ ns.visible, ∀ f ∈ v.shown, f.serialisable = true := by
    rw [Value.serialisable, Value.serialisableItems_iff, hserialisable]
  rw [Value.serialisable_record]
  simp [Namespace.serialisable, hname, hpublics, hplain.doc.serialisable,
    hplain.added.serialisable, hplain.deprecated.serialisable, hplain.author.serialisable]

theorem exists_namespacesData (unlinked : o.srcDirUri = none) (w : Workspace)
    {nss : List Namespace} (hplain : ∀ ns ∈ nss, ns.Plain) :
    ∃ ds, namespacesData o nss w = (.ok ds, w) ∧
      ((∀ d ∈ ds, d.serialisable = true) ↔ ∀ ns ∈ nss, ns.serialisable = true) := by
  induction nss with
  | nil => exact ⟨[], rfl, by simp⟩
  | cons ns nss ih =>
      obtain ⟨hns, hnss⟩ := List.forall_mem_cons.1 hplain
      obtain ⟨d, hd, hfirst⟩ := exists_namespaceData unlinked w hns
      obtain ⟨ds, hds, hserialisable⟩ := ih hnss
      refine ⟨d :: ds, ?_, ?_⟩
      · rw [namespacesData, bind_of_ok hd, bind_of_ok hds]
        rfl
      · rw [List.forall_mem_cons, List.forall_mem_cons, hfirst, hserialisable]

theorem serialisable_documentData (d : Document) : (documentData d).serialisable = true := by
  rw [documentData, Value.serialisable_record]
  have htitle : (Value.ofText? d.title).serialisable = true :=
    Value.Textual.serialisable ⟨d.title, rfl⟩
  simp [htitle, (Value.textual_str _).serialisable]

/-- The data of a site without links is put together without failure, and can be written just
if all metadata that is shown can. -/
theorem exists_siteData {s : Site} (unlinked : s.options.srcDirUri = none) (w : Workspace)
    (hplain : ∀ ns ∈ s.namespaces, ns.Plain) :
    ∃ d, siteData s w = (.ok d, w) ∧
      (d.serialisable = true ↔ ∀ ns ∈ s.visible, ns.serialisable = true) := by
  have hvisible : ∀ ns ∈ s.visible, ns.Plain := fun ns hns =>
    hplain ns (Site.mem_visible.1 hns).1
  obtain ⟨ds, hds, hserialisable⟩ := exists_namespacesData unlinked w hvisible
  rw [siteData, bind_of_ok hds]
  refine ⟨_, rfl, ?_⟩
  have hoptional (t : Option Text) : (Value.ofText? t).serialisable = true :=
    Value.Textual.serialisable ⟨t, rfl⟩
  have hproject : (record [("name", .ofText? s.options.name),
      ("version", .ofText? s.options.version),
      ("description", .ofText? s.options.description)]).serialisable = true := by
    rw [Value.serialisable_record]
    simp [hoptional]
  have hdocuments : (Value.list (s.documents.map documentData)).serialisable = true := by
    rw [Value.serialisable, Value.serialisableItems_iff, List.forall_mem_map]
    exact fun d _ => serialisable_documentData d
  have hnamespaces : (Value.list ds).serialisable = true ↔
      ∀ ns ∈ s.visible, ns.serialisable = true := by
    rw [Value.serialisable, Value.serialisableItems_iff, hserialisable]
  rw [Value.serialisable_record]
  simp [hproject, hdocuments, hnamespaces]

end Writer

/-! ## The file -/

theorem FileTree.walkFrom_of_directories {t t' : FileTree}
    (h : ∀ q, t.entry? q = some .directory → t'.entry? q = some .directory)
    {here names place : List Text} (hwalk : t.walkFrom here names = .ok place) :
    t'.walkFrom here names = .ok place := by
  induction names generalizing here with
  | nil => exact hwalk
  | cons n names ih =>
      rw [walkFrom] at hwalk ⊢
      split at hwalk
      case isTrue => cases hwalk
      case isFalse hdirectory =>
        rw [if_neg (not_not.2 (h here (not_not.1 hdirectory)))]
        split at hwalk
        case isTrue hpoints =>
          rw [if_pos hpoints]
          exact ih hwalk
        case isFalse hname =>
          rw [if_neg hname]
          exact ih hwalk

theorem FileTree.exists_write_again {t t' : FileTree} {cwd p : Path} {bytes : Bytes}
    (h : t.write cwd p bytes = .ok t') (bytes' : Bytes) :
    ∃ t'', t'.write cwd p bytes' = .ok t'' := by
  obtain ⟨hnot, ht'⟩ := eq_put_of_write h
  have hfile : t'.entry? (Path.resolve cwd p).names = some (.file bytes) := by
    rw [ht']
    exact entry?_put_self (ne_nil_of_entry?_ne hnot) t _
  have hdirectories (q : List Text) (hq : t.entry? q = some .directory) :
      t'.entry? q = some .directory := by
    have hne : q ≠ (Path.resolve cwd p).names := fun heq => hnot (heq ▸ hq)
    rw [ht', entry?_put_of_ne hne]
    exact hq
  unfold write at h ⊢
  split at h
  case isTrue => cases h
  case isFalse hnull =>
    rw [if_neg hnull]
    split at h
    case h_1 => cases h
    case h_2 place hplace =>
      rw [show t'.place cwd p = .ok place from walkFrom_of_directories hdirectories hplace]
      dsimp only
      rw [eq_resolve_of_place hplace, hfile]
      exact ⟨_, rfl⟩

namespace Writer

open Docsmith.Action

/-- The output directory is there or can be made, and the data file can be opened in it. -/
def CanPutData (o : Options) (w : Workspace) : Prop :=
  ∃ made opened, ensureDirectory o.outputDir w = (.ok (), made) ∧
    change (fun cwd t => t.write cwd (o.outputDir.child dataFile) []) made = (.ok (), opened)

theorem exists_writeText {target : Path} {text : Text} {w opened : Workspace}
    (hopen : change (fun cwd t => t.write cwd target []) w = (.ok (), opened))
    (htext : text.Encodable) : ∃ w', writeText target text w = (.ok (), w') := by
  obtain ⟨bytes, hbytes⟩ := htext.exists_encode
  obtain ⟨tree, htree, rfl⟩ := of_change hopen
  obtain ⟨tree', htree'⟩ := FileTree.exists_write_again htree bytes
  refine ⟨{ w with tree := tree' }, ?_⟩
  rw [writeText, bind_of_ok hopen, hbytes]
  change change _ { w with tree := tree } = _
  rw [change, htree']

theorem exists_writeJson_iff {s : Site} {w : Workspace} {data : Value}
    (hdata : siteData s w = (.ok data, w)) (hput : CanPutData s.options w) :
    (∃ w', writeJson s w = (.ok (), w')) ↔ data.serialisable = true := by
  obtain ⟨made, opened, hmade, hopened⟩ := hput
  rw [← Value.exists_json_iff]
  constructor
  · rintro ⟨w', h⟩
    obtain ⟨data', mid, hdata', h⟩ := exists_of_bind h
    obtain ⟨_, mid', -, h⟩ := exists_of_bind h
    obtain ⟨text, mid'', htext, -⟩ := exists_of_bind h
    rw [hdata] at hdata'
    cases hdata'
    exact ⟨text, (eq_of_ofExcept htext).1⟩
  · rintro ⟨text, htext⟩
    obtain ⟨w', hwrite⟩ := exists_writeText hopened (Value.encodable_of_jsonWithin htext)
    have hgiven : ofExcept data.json made = (.ok text, made) := congrArg (·, made) htext
    rw [writeJson, bind_of_ok hdata, bind_of_ok hmade, bind_of_ok hgiven, bind_of_ok hwrite]
    exact ⟨_, rfl⟩

end Writer

/-! ## Runs -/

theorem fill_nil (field : Text) (v : Value) : fill [] field v = v := by
  cases v <;> rfl

theorem VarFacts.overlay_nil (f : VarFacts) : f.overlay [] = f := by
  simp [overlay, fill_nil, fillAttrs]

theorem Namespace.overlay_nil (ns : Namespace) : ns.overlay [] = ns := by
  simp [overlay, fill_nil, fillAttrs]

theorem VarFacts.Made.plain_located {file : Text} {f : VarFacts} (h : f.Made file)
    (t : FileTree) (cwd root : Path) (roots : List Path) :
    (f.located t cwd root roots).Plain := by
  have hplain : f.Plain := ⟨h.doc, h.added, h.deprecated, h.path ▸ Value.textual_null⟩
  unfold located withPath
  split
  · split
    · exact ⟨h.doc, h.added, h.deprecated, Value.textual_str _⟩
    · exact hplain
  · exact hplain

namespace Run

theorem plain_of_readNamespaces {o : Options} {w w' : Workspace} {nss : List Namespace}
    (h : readNamespaces o w = (.ok nss, w')) (undefaulted : o.metadata = []) :
    ∀ ns ∈ nss, ns.Plain := by
  obtain ⟨readings, seen, hreads, -, rfl⟩ := exists_readings_of_readNamespaces h
  have hmade : ∀ ns ∈ readings.map Prod.snd, ∃ file, ns.Made file := by
    rw [List.forall_mem_map]
    exact fun reading hreading => ⟨_, (hreads.genuine reading hreading).made⟩
  generalize readings.map Prod.snd = records at hmade
  rw [undefaulted, addDefaults, List.map_map, List.map_map, List.forall_mem_map]
  intro name hname
  have hfirst : firstNamed records name ∈ records :=
    List.mem_of_find?_eq_some (find?_eq_some_firstNamed (List.mem_filter.1 hname).1)
  obtain ⟨file, hfields⟩ := hmade _ hfirst
  simp only [Function.comp_apply, Namespace.overlay_nil]
  refine ⟨hfields.doc, hfields.added, hfields.deprecated, hfields.author, fun f hf => ?_⟩
  dsimp only [Namespace.located] at hf
  rw [Var.mapAll_mapAll, Var.flattenAll_mapAll] at hf
  obtain ⟨g, hg, rfl⟩ := List.mem_map.1 hf
  obtain ⟨v, hv, hg⟩ := Var.mem_flattenAll.1 hg
  obtain ⟨ns, hns, hv⟩ := List.mem_flatMap.1 (List.mem_filter.1 hv).1
  obtain ⟨file, hvars⟩ := hmade ns (List.mem_filter.1 hns).1
  rw [Function.comp_apply, VarFacts.overlay_nil]
  exact (hvars.publics g (Var.mem_flattenAll.2 ⟨v, hv, hg⟩)).plain_located _ _ _ _

/-- What has been read without failure can be written as data just if the metadata that is
shown can: if the keys of each dictionary in it are of one kind and are not patterns, and no
integer in it is too long. -/
theorem write_data_iff_serialisable {o : Options} {w w' : Workspace} {nss : List Namespace}
    (h : readNamespaces o w = (.ok nss, w')) (undefaulted : o.metadata = [])
    (unlinked : o.srcDirUri = none) (documents : List Document) {start : Workspace}
    (hput : Writer.CanPutData o start) :
    (∃ done, Writer.json.write ⟨o, nss, documents⟩ start = (.ok (), done)) ↔
      ∀ ns ∈ (Site.mk o nss documents).visible, ns.serialisable = true := by
  obtain ⟨data, hdata, hserialisable⟩ :=
    Writer.exists_siteData (s := ⟨o, nss, documents⟩) unlinked start
      (plain_of_readNamespaces h undefaulted)
  rw [← hserialisable]
  exact Writer.exists_writeJson_iff hdata hput

theorem canPutData_singleSource (text : Text) :
    Writer.CanPutData singleOptions (singleSource text) :=
  ⟨_, _, rfl, rfl⟩

def numberKeys : Text := "(ns a \x7b:m \x7b1 2 0.5 #\"x\"\x7d\x7d)(def b 1)"

theorem write_data_of_numbers :
    ∃ nss w', readNamespaces singleOptions (singleSource numberKeys) = (.ok nss, w') ∧
      ∃ done, Writer.json.write ⟨singleOptions, nss, []⟩ (singleSource numberKeys) =
        (.ok (), done) := by
  have hserialisable : ((readNamespaces singleOptions (singleSource numberKeys)).1.toOption.map
      fun nss => (Site.mk singleOptions nss []).visible.all Namespace.serialisable) =
        some true := by decide +kernel
  match h : readNamespaces singleOptions (singleSource numberKeys) with
  | (.error e, w') =>
      rw [h] at hserialisable
      cases hserialisable
  | (.ok nss, w') =>
      rw [h] at hserialisable
      refine ⟨nss, w', rfl, ?_⟩
      rw [write_data_iff_serialisable h rfl rfl [] (canPutData_singleSource _)]
      exact List.all_eq_true.1 (Option.some.inj hserialisable)

/-- Metadata with a dictionary whose keys are a number and a text. -/
def mixedKeys : Text := "(ns a \x7b:m \x7b1 2 \"x\" 3\x7d\x7d)"

/-- It is read, but it cannot be written. -/
theorem data_refused_for_mixed_keys :
    singleOptions.metadata = [] ∧ singleOptions.srcDirUri = none ∧
      Writer.CanPutData singleOptions (singleSource mixedKeys) ∧
      ∃ nss w', readNamespaces singleOptions (singleSource mixedKeys) = (.ok nss, w') ∧
        ¬∃ done, Writer.json.write ⟨singleOptions, nss, []⟩ (singleSource mixedKeys) =
          (.ok (), done) := by
  have hrefused : ((readNamespaces singleOptions (singleSource mixedKeys)).1.toOption.map
      fun nss => (Site.mk singleOptions nss []).visible.all Namespace.serialisable) =
        some false := by decide +kernel
  refine ⟨rfl, rfl, canPutData_singleSource _, ?_⟩
  match h : readNamespaces singleOptions (singleSource mixedKeys) with
  | (.error e, w') =>
      rw [h] at hrefused
      cases hrefused
  | (.ok nss, w') =>
      rw [h] at hrefused
      refine ⟨nss, w', rfl, fun hwritten => ?_⟩
      obtain ⟨data, hdata, hserialisable⟩ :=
        Writer.exists_siteData (s := ⟨singleOptions, nss, []⟩) rfl
          (singleSource mixedKeys) (plain_of_readNamespaces h rfl)
      have hall := hserialisable.1
        ((Writer.exists_writeJson_iff hdata (canPutData_singleSource _)).1 hwritten)
      have hnone : (Site.mk singleOptions nss []).visible.all Namespace.serialisable = false :=
        Option.some.inj hrefused
      rw [List.all_eq_true.2 hall] at hnone
      cases hnone

end Run

end Docsmith
