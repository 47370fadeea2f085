import Docsmith.Proofs.Freshness
import Docsmith.Proofs.Merging
import Docsmith.Run.Generate

/-!
# From records to namespaces

A run reads records from the sources, and from the records it makes the namespaces that are
documented.  Nothing is lost, doubled or reordered on the way, but for names that are not
selected and variables that are excluded; and each variable that is excluded is logged.
-/

namespace Docsmith

/-! ## Reading -/

namespace Dialect

def AllFresh (nss : List Namespace) : Prop := ∀ ns ∈ nss, ns.Fresh

theorem allFresh_append {nss nss' : List Namespace} (h : AllFresh nss) (h' : AllFresh nss') :
    AllFresh (nss ++ nss') := by
  intro ns hns
  rcases List.mem_append.1 hns with hns | hns
  · exact h ns hns
  · exact h' ns hns

theorem fresh_of_namespaceOfText {d : Dialect} {file : SourceFile} {text : Except TextFault Text}
    {ns : Namespace} (h : d.namespaceOfText file text = .ok (some ns)) : ns.Fresh := by
  unfold namespaceOfText at h
  split at h
  · cases h
  · split at h
    case h_1 => cases h
    case h_2 forms hforms =>
      exact Definition.fresh_of_ofForms (Form.tidy_of_readAll hforms) h

theorem gives_readFile (d : Dialect) (r : Recovery) (file : SourceFile) :
    Action.Gives (d.readFile r file) AllFresh := by
  refine Action.gives_bind (Action.gives_tryReadText file.path) fun text _ => ?_
  have hnone : AllFresh [] := nofun
  split
  case h_1 ns hns =>
    refine Action.gives_pure ?_
    intro found hfound
    obtain rfl := List.mem_singleton.1 hfound
    exact fresh_of_namespaceOfText hns
  case h_2 => exact Action.gives_bind (Action.gives_debug _ _) fun _ _ => Action.gives_pure hnone
  case h_3 =>
    cases r with
    | handOver =>
        exact Action.gives_bind (Action.gives_handle _ _) fun _ _ => Action.gives_pure hnone
    | stop => exact Action.gives_fail _ _
    | misuse => exact Action.gives_fail _ _
  case h_4 => exact Action.gives_fail _ _

theorem gives_readFiles (d : Dialect) (r : Recovery) (files : List SourceFile) :
    Action.Gives (d.readFiles r files) AllFresh := by
  induction files with
  | nil => exact Action.gives_pure nofun
  | cons file files ih =>
      refine Action.gives_bind (gives_readFile d r file) fun nss hnss => ?_
      exact Action.gives_bind ih fun more hmore => Action.gives_pure (allFresh_append hnss hmore)

theorem gives_readRoots (d : Dialect) (r : Recovery) (roots : List Path) :
    Action.Gives (d.readRoots r roots) AllFresh := by
  induction roots with
  | nil => exact Action.gives_pure nofun
  | cons root roots ih =>
      refine Action.gives_bind Action.gives_workspace fun w _ => ?_
      refine Action.gives_bind (Action.gives_ofExcept _) fun files _ => ?_
      refine Action.gives_bind (gives_readFiles d r files) fun nss hnss => ?_
      exact Action.gives_bind ih fun more hmore => Action.gives_pure (allFresh_append hnss hmore)

theorem gives_read (d : Dialect) (r : Recovery) (roots : List Path) :
    Action.Gives (d.read r roots) AllFresh := by
  refine Action.gives_bind (gives_readRoots d r roots) fun nss hnss => ?_
  exact Action.gives_bind (Action.gives_debug _ _) fun _ _ => Action.gives_pure hnss

theorem allFresh_macrosOnly {nss : List Namespace} (h : AllFresh nss) :
    AllFresh (macrosOnly nss) := by
  intro ns hns
  obtain ⟨old, hold, rfl⟩ := List.mem_map.1 (List.mem_filter.1 hns).1
  have hfresh := h old hold
  exact ⟨hfresh.attrs, fun v hv => hfresh.publics v (List.mem_filter.1 hv).1⟩

theorem gives_readMacros (r : Recovery) (roots : List Path) :
    Action.Gives (readMacros r roots) AllFresh := by
  refine Action.gives_bind (gives_read clojure r roots) fun nss hnss => ?_
  exact Action.gives_pure (allFresh_macrosOnly hnss)

end Dialect

/-! ## What the records become -/

theorem mem_of_mem_varsNamed {records : List Namespace} {name : Option Text} {v : Var}
    (h : v ∈ varsNamed records name) : ∃ ns ∈ records, v ∈ ns.publics := by
  obtain ⟨ns, hns, hv⟩ := List.mem_flatMap.1 h
  exact ⟨ns, (List.mem_filter.1 hns).1, hv⟩

theorem fresh_remaining {exclusion : Option Regex} {records : List Namespace} {name : Option Text}
    (fresh : Dialect.AllFresh records) (h : name ∈ recordNames records) :
    (remaining exclusion records name).Fresh := by
  have hfirst := List.mem_of_find?_eq_some (find?_eq_some_firstNamed h)
  refine ⟨(fresh _ hfirst).attrs, ?_⟩
  intro v hv
  obtain ⟨ns, hns, hmem⟩ := mem_of_mem_varsNamed (List.mem_filter.1 hv).1
  exact (fresh ns hns).publics v hmem

/-- The namespace that a name gets: it keeps the first record of that name, and has the
variables of all of them, each kept, but for those that are excluded. -/
structure Extracts (o : Options) (records : List Namespace) (name : Option Text)
    (ns : Namespace) : Prop where
  named : ns.name = name
  first : ∃ first, records.find? (fun r => r.name = name) = some first ∧ first.Kept ns
  publics : List.Forall₂ Var.Kept
    ((varsNamed records name).filter fun v => !excludes o.excludeVars v) ns.publics

theorem extracts_of_completes {o : Options} {records : List Namespace} {name : Option Text}
    {ns : Namespace} (h : name ∈ recordNames records)
    (completes : (remaining o.excludeVars records name).Completes ns) :
    Extracts o records name ns := by
  obtain ⟨kept, hpublics⟩ := completes
  refine ⟨?_, ⟨firstNamed records name, find?_eq_some_firstNamed h, ?_⟩, hpublics⟩
  · exact kept.name.trans (firstNamed_name records name)
  · exact ⟨kept.name, kept.doc, kept.noDoc, kept.added, kept.deprecated, kept.author, kept.attrs⟩

theorem extracts_of_located {o : Options} {records nss : List Namespace}
    (fresh : Dialect.AllFresh records)
    (located : List.Forall₂ Namespace.Located
      ((selectedNames o.namespaces records).map (remaining o.excludeVars records)) nss) :
    List.Forall₂ (Extracts o records) (selectedNames o.namespaces records)
      (addDefaults o.metadata nss) := by
  have hnames (name : Option Text) (h : name ∈ selectedNames o.namespaces records) :
      name ∈ recordNames records := (List.mem_filter.1 h).1
  have hfresh : ∀ ns ∈ (selectedNames o.namespaces records).map (remaining o.excludeVars records),
      ns.Fresh := by
    intro ns hns
    obtain ⟨name, hname, rfl⟩ := List.mem_map.1 hns
    exact fresh_remaining fresh (hnames name hname)
  have hcompletes := completes_addDefaults hfresh located o.metadata
  rw [List.forall₂_map_left_iff] at hcompletes
  refine ((List.forall₂_and_left _ _).2 ⟨hnames, hcompletes⟩).imp fun name ns h => ?_
  exact extracts_of_completes h.1 h.2

/-! ## A run -/

namespace Run

/-- What the passes over the sources read: the pass of the language, and after it the pass
for macros if the language needs one. -/
def ReadsRecords (o : Options) (w : Workspace) (records : List Namespace) : Prop :=
  ∃ d reader mid, resolveReader builtInReaders [] (.str o.language) = .ok d ∧
    d.read (recovery o) o.sourceRoots w = (.ok reader, mid) ∧
    if d.needsMacroPass then
      ∃ macros last, Dialect.readMacros (recovery o) o.sourceRoots mid = (.ok macros, last) ∧
        records = reader ++ macros
    else records = reader

theorem gives_readSources (o : Options) (d : Dialect) :
    Action.Gives (readSources o d) Dialect.AllFresh := by
  refine Action.gives_bind (Dialect.gives_read d _ _) fun nss hnss => ?_
  split
  · refine Action.gives_bind (Dialect.gives_readMacros _ _) fun macros hmacros => ?_
    refine Action.gives_bind (Action.gives_debug _ _) fun _ _ => ?_
    exact Action.gives_pure (Dialect.allFresh_append hnss hmacros)
  · exact Action.gives_pure hnss

theorem readsRecords_of_readSources {o : Options} {d : Dialect} {w mid : Workspace}
    {records : List Namespace}
    (hd : resolveReader builtInReaders [] (.str o.language) = .ok d)
    (h : readSources o d w = (.ok records, mid)) : ReadsRecords o w records := by
  obtain ⟨reader, first, hreader, h⟩ := Action.exists_of_bind h
  refine ⟨d, reader, first, hd, hreader, ?_⟩
  split at h
  case isTrue hpass =>
    obtain ⟨macros, second, hmacros, h⟩ := Action.exists_of_bind h
    obtain ⟨_, third, -, h⟩ := Action.exists_of_bind h
    cases h
    rw [if_pos hpass]
    exact ⟨macros, second, hmacros, rfl⟩
  case isFalse hpass =>
    cases h
    rw [if_neg hpass]

theorem filter_info_of_quiet {log : List LogRecord} (h : Quiet log) :
    log.filter (fun r => r.level = .info) = [] := by
  rw [List.filter_eq_nil_iff]
  intro r hr
  simpa using h r hr

theorem filter_info_exclusions (exclusion : Option Regex) (records : List Namespace)
    (names : List (Option Text)) :
    (exclusions exclusion records names).filter (fun r => r.level = .info) =
      exclusions exclusion records names := by
  rw [List.filter_eq_self]
  intro r hr
  obtain ⟨name, -, hr⟩ := List.mem_flatMap.1 hr
  obtain ⟨v, -, rfl⟩ := List.mem_map.1 hr
  rfl

/-- The namespaces of a run are those of its records: one for each selected name, complete
but for what is excluded, and what is excluded is logged, each variable once and in order. -/
theorem readNamespaces_extracts {o : Options} {w w' : Workspace} {result : List Namespace}
    (h : readNamespaces o w = (.ok result, w')) :
    ∃ records log, ReadsRecords o w records ∧
      List.Forall₂ (Extracts o records) (selectedNames o.namespaces records) result ∧
      Logs w log w' ∧ (w.logging = none → w'.log = w.log ++ log) ∧
      log.filter (fun r => r.level = .info) =
        exclusions o.excludeVars records (selectedNames o.namespaces records) := by
  obtain ⟨d, start, hd, hsources⟩ := Action.exists_of_bind h
  obtain ⟨hresolved, rfl⟩ := Action.eq_of_ofExcept hd
  obtain ⟨records, read, hrecords, hexclude⟩ := Action.exists_of_bind hsources
  obtain ⟨_, logged, hexcluded, hlocate⟩ := Action.exists_of_bind hexclude
  obtain ⟨here, same, hhere, hsearch⟩ := Action.exists_of_bind hlocate
  obtain ⟨⟨nss, missing⟩, found, hfound, hcomplete⟩ := Action.exists_of_bind hsearch
  obtain ⟨hpaths, rfl⟩ := Action.eq_of_ofExcept hfound
  obtain ⟨_, last, hmissing, hdone⟩ := Action.exists_of_bind hcomplete
  cases hhere
  obtain ⟨hcompleted, rfl⟩ := Action.eq_of_ofExcept hdone
  obtain rfl := eq_addDefaults_of_complete hcompleted
  obtain ⟨fresh, reading, hreading, quiet⟩ := gives_readSources o d _ _ _ hrecords
  rw [selectNamespaces_merge, exclusionLog_merged] at hexcluded
  rw [selectNamespaces_merge, removeExcluded_merged] at hpaths
  obtain ⟨located, quiet'⟩ := located_of_addSourcePaths hpaths
  have hlogs := (hreading.append (Action.logs_of_recordAll hexcluded)).append
    (Action.logs_of_recordAll hmissing)
  refine ⟨records, _, readsRecords_of_readSources hresolved hrecords,
    extracts_of_located fresh located, hlogs, hlogs.log_eq, ?_⟩
  rw [List.filter_append, List.filter_append, filter_info_of_quiet quiet,
    filter_info_exclusions, filter_info_of_quiet quiet', List.nil_append, List.append_nil]

def sharedSource : Text := "(ns a)(def b 1)(defmacro m[])"

def sharedWorkspace : Workspace :=
  { cwd := ⟨true, []⟩,
    tree := ⟨[(["a.cljc"], .file (sharedSource.map fun c => c.toNat.toUInt8))]⟩ }

def sharedOptions : Options :=
  { root := ⟨true, []⟩, language := "clojurescript", sourcePaths := ["a.cljc"],
    excludeVars := (Regex.compilePosix "b").toOption, commit := .known .null,
    metadata := [(.str "doc", .str "d"), (.str "x", .int 1)] }

/-- The two records of one file become one namespace, with the macro of the second and
without the variable of the first, which is logged. -/
theorem readNamespaces_extracts_shared :
    ∃ result w', readNamespaces sharedOptions sharedWorkspace = (.ok result, w') ∧
      result.map (fun ns => (ns.name, ns.publics.map Var.name)) =
        [(some (Text.ofString "a"), [Text.ofString "m"])] ∧
      ∃ records log, ReadsRecords sharedOptions sharedWorkspace records ∧
        List.Forall₂ (Extracts sharedOptions records)
          (selectedNames sharedOptions.namespaces records) result ∧
        Logs sharedWorkspace log w' ∧
        log.filter (fun r => r.level = .info) =
          [⟨"codox.filters", .info, "Excluding var a/b"⟩] := by
  have hnames : (readNamespaces sharedOptions sharedWorkspace).1.toOption.map
      (List.map fun ns => (ns.name, ns.publics.map Var.name)) =
        some [(some (Text.ofString "a"), [Text.ofString "m"])] := by decide +kernel
  have hlog : (readNamespaces sharedOptions sharedWorkspace).2.log.filter
      (fun r => r.level = .info) = [⟨"codox.filters", .info, "Excluding var a/b"⟩] := by
    decide +kernel
  match h : readNamespaces sharedOptions sharedWorkspace with
  | (.error e, w') =>
      rw [h] at hnames
      cases hnames
  | (.ok result, w') =>
      rw [h] at hnames hlog
      obtain ⟨records, log, hrecords, hextracts, hlogs, hkept, -⟩ := readNamespaces_extracts h
      have hall : w'.log = log := hkept rfl
      refine ⟨result, w', rfl, Option.some.inj hnames, records, log, hrecords, hextracts, hlogs, ?_⟩
      rw [← hall]
      exact hlog

end Run

end Docsmith
