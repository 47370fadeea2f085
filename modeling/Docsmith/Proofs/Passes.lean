import Docsmith.Proofs.Context
import Docsmith.Proofs.Contributions
import Docsmith.Proofs.Frames
import Docsmith.Proofs.Stages
import Docsmith.Source.Dialect

/-!
# Two passes over shared sources

Where all sources are shared by the dialects and hold no conditionals, reading them without
macros and then once more for the macros gives what reading them at once gives: the same
namespaces, and in each of them the same variables, with the macros behind the others.
-/

namespace Docsmith

/-! ## Macros apart -/

namespace Namespace

def withoutMacros (ns : Namespace) : Namespace :=
  { ns with publics := ns.publics.filter fun v => !v.isMacro }

/-- The variables that are not macros, then the macros, both in order. -/
def macrosLast (ns : Namespace) : Namespace :=
  { ns with publics := (ns.publics.filter fun v => !v.isMacro) ++ ns.publics.filter Var.isMacro }

theorem publics_macrosLast_perm (ns : Namespace) : ns.macrosLast.publics.Perm ns.publics := by
  have hperm := List.filter_append_perm Var.isMacro ns.publics
  exact List.perm_append_comm.trans hperm

theorem uniform_withoutMacros : Uniform withoutMacros where
  name _ := rfl
  append m ns := by simp [withoutMacros]

end Namespace

theorem mergeNamespaces_append {records more : List Namespace}
    (known : ∀ ns ∈ more, ns.name ∈ recordNames records) :
    mergeNamespaces (records ++ more) =
      (mergeNamespaces records).map fun ns =>
        { ns with publics := ns.publics ++ varsNamed more ns.name } := by
  have hnames : recordNames (records ++ more) = recordNames records := by
    have hnone : List.removeAll (more.map Namespace.name) (records.map Namespace.name) = [] := by
      rw [List.removeAll, List.filter_eq_nil_iff]
      intro name hname
      obtain ⟨ns, hns, rfl⟩ := List.mem_map.1 hname
      have hmem := known ns hns
      rw [recordNames, List.mem_eraseDups] at hmem
      simpa using hmem
    rw [recordNames, List.map_append, List.eraseDups_append, hnone, recordNames]
    simp
  rw [mergeNamespaces_eq, mergeNamespaces_eq, hnames, List.map_map]
  refine List.map_congr_left fun name hname => ?_
  have hfirst : firstNamed (records ++ more) name = firstNamed records name := by
    rw [firstNamed, List.find?_append, find?_eq_some_firstNamed hname]
    rfl
  have hvars : varsNamed (records ++ more) name = varsNamed records name ++ varsNamed more name := by
    simp [varsNamed, List.filter_append]
  simp only [mergedAs, hfirst, hvars, Function.comp_apply, firstNamed_name]

theorem varsNamed_macrosOnly (records : List Namespace) (name : Option Text) :
    varsNamed (Dialect.macrosOnly records) name = (varsNamed records name).filter Var.isMacro := by
  induction records with
  | nil => rfl
  | cons ns records ih =>
      have hcons : varsNamed (ns :: records) name =
          (if ns.name = name then ns.publics else []) ++ varsNamed records name := by
        by_cases h : ns.name = name <;> simp [varsNamed, h]
      have hmacros : varsNamed (Dialect.macrosOnly (ns :: records)) name =
          (if ns.name = name then ns.publics.filter Var.isMacro else []) ++
            varsNamed (Dialect.macrosOnly records) name := by
        by_cases h : ns.name = name <;> by_cases hnone : ns.publics.filter Var.isMacro = [] <;>
          simp [varsNamed, Dialect.macrosOnly, h, hnone]
      rw [hcons, hmacros, List.filter_append, ih]
      split <;> rfl

theorem exists_of_mem_macrosOnly {records : List Namespace} {ns : Namespace}
    (h : ns ∈ Dialect.macrosOnly records) : ∃ old ∈ records, old.name = ns.name := by
  obtain ⟨old, hold, rfl⟩ := List.mem_map.1 (List.mem_filter.1 h).1
  exact ⟨old, hold, rfl⟩

theorem mergeNamespaces_macros_apart (records : List Namespace) :
    mergeNamespaces (records.map Namespace.withoutMacros ++ Dialect.macrosOnly records) =
      (mergeNamespaces records).map Namespace.macrosLast := by
  have known : ∀ ns ∈ Dialect.macrosOnly records,
      ns.name ∈ recordNames (records.map Namespace.withoutMacros) := by
    intro ns hns
    obtain ⟨old, hold, hname⟩ := exists_of_mem_macrosOnly hns
    exact mem_recordNames.2 ⟨old.withoutMacros, List.mem_map_of_mem hold, hname⟩
  rw [mergeNamespaces_append known, mergeNamespaces_map Namespace.uniform_withoutMacros,
    List.map_map]
  refine List.map_congr_left fun ns hns => ?_
  have hpublics : varsNamed records ns.name = ns.publics := by
    rw [mergeNamespaces_eq] at hns
    obtain ⟨name, -, rfl⟩ := List.mem_map.1 hns
    rw [mergedAs_name]
    rfl
  simp only [Function.comp_apply, varsNamed_macrosOnly, Namespace.withoutMacros, hpublics]
  rfl

/-! ## Definitions without macros -/

namespace Definition

theorem kind_of_toVar {name kind file : Text} {line : Nat} {b : Body} {v : Var}
    (h : toVar name kind file line b = .ok v) : v.facts.kind = kind := by
  obtain ⟨_, _, _, _, -, -, -, -, rfl⟩ := exists_of_toVar h
  rfl

theorem isMacro_factories (isRecord : Bool) (ns file name : Text) (line : Nat) (fields : Text) :
    ∀ v ∈ factories isRecord ns file name line fields, v.isMacro = false := by
  intro v hv
  obtain ⟨_, _, _, rfl, -⟩ := exists_of_mem_factories hv
  rfl

theorem filter_eq_self_of_isMacro {vars : List Var} (h : ∀ v ∈ vars, v.isMacro = false) :
    (vars.filter fun v => !v.isMacro) = vars := by
  rw [List.filter_eq_self]
  intro v hv
  rw [h v hv]
  rfl

theorem isMacro_of_toVar {name kind file : Text} {line : Nat} {b : Body} {v : Var}
    (h : toVar name kind file line b = .ok v) : v.isMacro = decide (kind = "macro") := by
  rw [Var.isMacro, kind_of_toVar h]

theorem publics_without_macros {ns file head : Text} {line : Nat} {rest : List Form}
    {vars : List Var} (h : publics true ns file head line rest = .ok vars) :
    publics false ns file head line rest = .ok (vars.filter fun v => !v.isMacro) := by
  unfold publics at h ⊢
  dsimp only at h ⊢
  split at h
  case isTrue hdefiner =>
    rw [if_pos hdefiner]
    split at h
    · split at h
      case isTrue =>
        cases h
        simp [*]
      case isFalse hpublic =>
        obtain ⟨fields, hfields, h⟩ := exists_of_bind_eq_ok h
        cases h
        simp only [hpublic, hfields, Bool.false_eq_true, if_false,
          filter_eq_self_of_isMacro (isMacro_factories _ _ _ _ _ _)]
        rfl
    · cases h
      rfl
  case isFalse hdefiner =>
    rw [if_neg hdefiner]
    split at h
    case h_1 kind name attrs rest _ =>
      simp only [Bool.not_true, Bool.and_false, Bool.or_false, Bool.not_false,
        Bool.and_true] at h ⊢
      split at h
      case isTrue hskip =>
        cases h
        simp [hskip]
      case isFalse hpublic =>
        obtain ⟨b, hb, h⟩ := exists_of_bind_eq_ok h
        obtain ⟨v, hv, h⟩ := exists_of_bind_eq_ok h
        cases h
        have hflag := isMacro_of_toVar hv
        by_cases hkind : kind = "macro"
        · simp [hkind] at hflag ⊢
          simp [hflag]
        · simp only [hpublic, hkind, decide_false, Bool.or_false] at hflag ⊢
          simp [hflag, hb, hv, bind, Except.bind, pure, Except.pure]
    case h_2 =>
      cases h
      rfl

theorem publicsOf_without_macros {ns file : Text} {forms : List Form} {vars : List Var}
    (h : publicsOf true ns file forms = .ok vars) :
    publicsOf false ns file forms = .ok (vars.filter fun v => !v.isMacro) := by
  have hstart : ([] : List Var).filter (fun v => !v.isMacro) = [] := rfl
  unfold publicsOf at h ⊢
  rw [← hstart]
  generalize [] = acc at h ⊢
  induction forms generalizing acc with
  | nil =>
      cases h
      rfl
  | cons f forms ih =>
      rw [List.foldlM_cons] at h ⊢
      obtain ⟨next, hnext, h⟩ := exists_of_bind_eq_ok h
      have hrest := ih next h
      split at hnext
      · obtain ⟨more, hmore, hnext⟩ := exists_of_bind_eq_ok hnext
        cases hnext
        rw [List.filter_append] at hrest
        simpa [publics_without_macros hmore, bind, Except.bind, pure, Except.pure] using hrest
      · cases hnext
        exact hrest

theorem namespaceOf_without_macros {hd : Header} {vars : List Var} {ns : Namespace}
    (h : namespaceOf hd vars = .ok ns) :
    namespaceOf hd (vars.filter fun v => !v.isMacro) = .ok ns.withoutMacros := by
  obtain ⟨attrs, rest, added, deprecated, extra, htaken, hadded, hdeprecated, hextra, rfl⟩ :=
    exists_of_namespaceOf h
  simp only [namespaceOf, htaken, hadded, hdeprecated, hextra, bind, Except.bind]
  rfl

theorem ofForms_without_macros {file : Text} {forms : List Form} {found : Option Namespace}
    (h : ofForms true file forms = .ok found) :
    ofForms false file forms = .ok (found.map Namespace.withoutMacros) := by
  induction forms with
  | nil =>
      cases h
      rfl
  | cons f rest ih =>
      unfold ofForms at h ⊢
      split at h
      · exact ih h
      · obtain ⟨vars, hvars, h⟩ := exists_of_bind_eq_ok h
        obtain ⟨ns, hns, h⟩ := exists_of_bind_eq_ok h
        cases h
        simp only [publicsOf_without_macros hvars, namespaceOf_without_macros hns, bind, Except.bind]
        rfl

end Definition

/-! ## Actions that log and change nothing else -/

namespace Action

variable {α β : Type} {w : Workspace}

def Returns (w : Workspace) (x : Action α) (a : α) : Prop :=
  ∀ w', w.Alike w' → ∃ last, x w' = (.ok a, last) ∧ w.Alike last

theorem returns_pure (a : α) : Returns w (pure a) a := fun w' h => ⟨w', rfl, h⟩

theorem returns_bind {x : Action α} {next : α → Action β} {a : α} {b : β} (hx : Returns w x a)
    (hnext : Returns w (next a) b) : Returns w (x >>= next) b := by
  intro w' h
  obtain ⟨mid, hmid, h⟩ := hx w' h
  obtain ⟨last, hlast, h⟩ := hnext mid h
  exact ⟨last, by rw [bind_of_ok hmid, hlast], h⟩

theorem returns_workspace {next : Workspace → Action β} {b : β}
    (h : ∀ w', w.Alike w' → Returns w (next w') b) : Returns w (workspace >>= next) b := by
  intro w' hw
  obtain ⟨last, hlast, hw⟩ := h w' hw w' hw
  exact ⟨last, by rw [bind_of_ok (show workspace w' = (.ok w', w') from rfl), hlast], hw⟩

theorem returns_ofExcept {e : Except Failure α} {a : α} (h : e = .ok a) :
    Returns w (ofExcept e) a := by
  subst h
  exact fun w' hw => ⟨w', rfl, hw⟩

theorem returns_logAs (part : Text) (level : Level) (message : Text) :
    Returns w (logAs part level message) () := fun w' h =>
  ⟨_, rfl, h.trans (Workspace.alike_record w' _)⟩

theorem returns_tryReadText {p : Path}
    (hp : ∀ place, w.tree.place w.cwd p = .ok place → ¬w.LogsTo place) :
    Returns w (tryReadText p) (w.tree.readText w.cwd p) := by
  intro w' h
  refine ⟨w', ?_, h⟩
  rw [tryReadText, h.cwd, h.tree.readText_eq hp]

end Action

namespace Dialect

/-! ## Reading files that can be read -/

def filesAt (d : Dialect) (w : Workspace) (root : Path) : List SourceFile :=
  ((d.sourceFiles w.tree w.cwd root).toOption).getD []

def readAt (d : Dialect) (w : Workspace) (file : SourceFile) : Except Failure (Option Namespace) :=
  d.namespaceOfText file (w.tree.readText w.cwd file.path)

def recordAt (d : Dialect) (w : Workspace) (file : SourceFile) : Option Namespace :=
  ((d.readAt w file).toOption).join

def records (d : Dialect) (w : Workspace) (roots : List Path) : List Namespace :=
  roots.flatMap fun root => (d.filesAt w root).filterMap (d.recordAt w)

/-- Everything that is to be read can be read, and nothing of it is a log file. -/
structure Readable (d : Dialect) (w : Workspace) (roots : List Path) : Prop where
  existing : ∀ root ∈ roots, ∃ files, d.sourceFiles w.tree w.cwd root = .ok files
  reads : ∀ root ∈ roots, ∀ file ∈ d.filesAt w root, ∃ found, d.readAt w file = .ok found
  unlogged : ∀ root ∈ roots, ∀ file ∈ d.filesAt w root, ∀ place,
    w.tree.place w.cwd file.path = .ok place → ¬w.LogsTo place

variable {d : Dialect} {w : Workspace}

theorem sourceFiles_of_alike {w' : Workspace} (h : w.Alike w') (root : Path) :
    d.sourceFiles w'.tree w'.cwd root = d.sourceFiles w.tree w.cwd root := by
  simp only [sourceFiles, h.cwd, h.tree.isFile_eq, h.tree.isDirectory_eq, h.tree.filesUnder_eq]

theorem exists_sourceFiles_of_exists {root : Path}
    (h : w.tree.isFile w.cwd root = true ∨ w.tree.isDirectory w.cwd root = true) :
    ∃ files, d.sourceFiles w.tree w.cwd root = .ok files := by
  unfold sourceFiles
  by_cases hfile : w.tree.isFile w.cwd root = true
  · simp [hfile]
  · simp [hfile, h.resolve_left hfile]

theorem recordAt_eq {file : SourceFile} {found : Option Namespace}
    (h : d.readAt w file = .ok found) : d.recordAt w file = found := by
  rw [recordAt, h]
  rfl

theorem returns_readFile (r : Recovery) {file : SourceFile}
    (hread : ∃ found, d.readAt w file = .ok found)
    (unlogged : ∀ place, w.tree.place w.cwd file.path = .ok place → ¬w.LogsTo place) :
    Action.Returns w (d.readFile r file) (d.recordAt w file).toList := by
  obtain ⟨found, hfound⟩ := hread
  rw [recordAt_eq hfound]
  refine Action.returns_bind (Action.returns_tryReadText unlogged) ?_
  rw [readAt] at hfound
  rw [hfound]
  cases found with
  | some ns => exact Action.returns_pure _
  | none => exact Action.returns_bind (Action.returns_logAs _ _ _) (Action.returns_pure _)

theorem filterMap_recordAt_cons (file : SourceFile) (files : List SourceFile) :
    (file :: files).filterMap (d.recordAt w) =
      (d.recordAt w file).toList ++ files.filterMap (d.recordAt w) := by
  cases hrecord : d.recordAt w file <;> simp [hrecord]

theorem returns_readFiles (r : Recovery) {files : List SourceFile}
    (hreads : ∀ file ∈ files, ∃ found, d.readAt w file = .ok found)
    (unlogged : ∀ file ∈ files, ∀ place, w.tree.place w.cwd file.path = .ok place →
      ¬w.LogsTo place) :
    Action.Returns w (d.readFiles r files) (files.filterMap (d.recordAt w)) := by
  induction files with
  | nil => exact Action.returns_pure _
  | cons file files ih =>
      obtain ⟨hread, hreads⟩ := List.forall_mem_cons.1 hreads
      obtain ⟨hplace, hplaces⟩ := List.forall_mem_cons.1 unlogged
      rw [filterMap_recordAt_cons]
      refine Action.returns_bind (returns_readFile r hread hplace) ?_
      exact Action.returns_bind (ih hreads hplaces) (Action.returns_pure _)

theorem returns_readRoots (r : Recovery) {roots : List Path} (h : d.Readable w roots) :
    Action.Returns w (d.readRoots r roots) (d.records w roots) := by
  induction roots with
  | nil => exact Action.returns_pure _
  | cons root roots ih =>
      obtain ⟨⟨files, hfiles⟩, hexisting⟩ := List.forall_mem_cons.1 h.existing
      obtain ⟨hreads, hreadsRest⟩ := List.forall_mem_cons.1 h.reads
      obtain ⟨hplaces, hplacesRest⟩ := List.forall_mem_cons.1 h.unlogged
      have hat : d.filesAt w root = files := by
        rw [filesAt, hfiles]
        rfl
      refine Action.returns_workspace fun w' hw => ?_
      rw [sourceFiles_of_alike hw]
      refine Action.returns_bind (Action.returns_ofExcept hfiles) ?_
      rw [hat] at hreads hplaces
      have hfirst := returns_readFiles r hreads hplaces
      rw [← hat] at hfirst ⊢
      refine Action.returns_bind hfirst ?_
      exact Action.returns_bind (ih ⟨hexisting, hreadsRest, hplacesRest⟩) (Action.returns_pure _)

theorem returns_read (r : Recovery) {roots : List Path} (h : d.Readable w roots) :
    Action.Returns w (d.read r roots) (d.records w roots) := by
  refine Action.returns_bind (returns_readRoots r h) ?_
  exact Action.returns_bind (Action.returns_logAs _ _ _) (Action.returns_pure _)

/-! ## Shared sources -/

def candidates (w : Workspace) (root : Path) : List Path :=
  if w.tree.isFile w.cwd root then [root]
  else (w.tree.filesUnder w.cwd root).map Path.relative

/-- The roots exist, and their sources are all shared by the dialects, hold no conditional
and can be read. -/
structure Shared (w : Workspace) (roots : List Path) : Prop where
  existing : ∀ root ∈ roots, w.tree.isFile w.cwd root = true ∨ w.tree.isDirectory w.cwd root = true
  common : ∀ root ∈ roots, ∀ p ∈ candidates w root,
    p.suffix ∈ [Text.ofString ".clj", ".cljs", ".cljc"] → p.suffix = ".cljc"
  reads : ∀ root ∈ roots, ∀ file ∈ clojure.filesAt w root, ∃ found,
    clojure.readAt w file = .ok found
  unconditional : ∀ root ∈ roots, ∀ file ∈ clojure.filesAt w root, ∀ text ts,
    w.tree.readText w.cwd file.path = .ok text → Token.tokenize text = .ok ts →
      ∀ t ∈ ts, t.lexeme.isConditional = false
  unlogged : ∀ root ∈ roots, ∀ file ∈ clojure.filesAt w root, ∀ place,
    w.tree.place w.cwd file.path = .ok place → ¬w.LogsTo place

theorem isSource_of_suffix {p : Path}
    (h : p.suffix ∈ [Text.ofString ".clj", ".cljs", ".cljc"] → p.suffix = ".cljc") :
    clojurescript.isSource p = clojure.isSource p := by
  by_cases hmem : p.suffix ∈ [Text.ofString ".clj", ".cljs", ".cljc"]
  · simp only [isSource, h hmem]
    decide
  · simp only [List.mem_cons, List.not_mem_nil, or_false, not_or] at hmem
    simp [isSource, clojure, clojurescript, hmem]

theorem Shared.sourceFiles_eq {roots : List Path} (h : Shared w roots) {root : Path}
    (hroot : root ∈ roots) :
    clojurescript.sourceFiles w.tree w.cwd root = clojure.sourceFiles w.tree w.cwd root := by
  have hcommon := h.common root hroot
  unfold sourceFiles
  by_cases hfile : w.tree.isFile w.cwd root = true
  · simp only [candidates, hfile, if_true, List.mem_singleton, forall_eq] at hcommon ⊢
    rw [isSource_of_suffix hcommon]
  · simp only [candidates, hfile, Bool.false_eq_true, if_false, List.forall_mem_map] at hcommon ⊢
    rw [List.filter_congr fun names hnames => isSource_of_suffix (hcommon names hnames)]

theorem Shared.exists_sourceFiles {roots : List Path} (h : Shared w roots) {root : Path}
    (hroot : root ∈ roots) : ∃ files, clojure.sourceFiles w.tree w.cwd root = .ok files :=
  exists_sourceFiles_of_exists (h.existing root hroot)

theorem readAll_of_unconditional {text : Text}
    (h : ∀ ts, Token.tokenize text = .ok ts → ∀ t ∈ ts, t.lexeme.isConditional = false)
    (features features' : List Text) :
    Form.readAll features text = Form.readAll features' text := by
  unfold Form.readAll
  cases htokens : Token.tokenize text with
  | error e => rfl
  | ok ts => exact Reader.readTokens_of_unconditional (h ts htokens) features features'

theorem readAt_without_macros {file : SourceFile} {found : Option Namespace}
    (unconditional : ∀ text ts, w.tree.readText w.cwd file.path = .ok text →
      Token.tokenize text = .ok ts → ∀ t ∈ ts, t.lexeme.isConditional = false)
    (h : clojure.readAt w file = .ok found) :
    clojurescript.readAt w file = .ok (found.map Namespace.withoutMacros) := by
  unfold readAt namespaceOfText at h ⊢
  split at h
  case h_1 => cases h
  case h_2 text htext =>
    have hforms := readAll_of_unconditional (fun ts => unconditional text ts htext)
      clojurescript.features clojure.features
    rw [hforms]
    split at h
    · cases h
    · exact Definition.ofForms_without_macros h

theorem Shared.readAt {roots : List Path} (h : Shared w roots) {root : Path} (hroot : root ∈ roots)
    {file : SourceFile} (hfile : file ∈ clojure.filesAt w root) :
    clojurescript.readAt w file =
      .ok ((clojure.recordAt w file).map Namespace.withoutMacros) := by
  obtain ⟨found, hfound⟩ := h.reads root hroot file hfile
  rw [recordAt_eq hfound]
  exact readAt_without_macros (h.unconditional root hroot file hfile) hfound

theorem Shared.filesAt_eq {roots : List Path} (h : Shared w roots) {root : Path}
    (hroot : root ∈ roots) : clojurescript.filesAt w root = clojure.filesAt w root := by
  rw [filesAt, h.sourceFiles_eq hroot, filesAt]

theorem Shared.readable_clojure {roots : List Path} (h : Shared w roots) :
    clojure.Readable w roots where
  existing _ hroot := h.exists_sourceFiles hroot
  reads := h.reads
  unlogged := h.unlogged

theorem Shared.readable_clojurescript {roots : List Path} (h : Shared w roots) :
    clojurescript.Readable w roots where
  existing root hroot := by
    rw [h.sourceFiles_eq hroot]
    exact h.exists_sourceFiles hroot
  reads root hroot file hfile := by
    rw [h.filesAt_eq hroot] at hfile
    exact ⟨_, h.readAt hroot hfile⟩
  unlogged root hroot file hfile := by
    rw [h.filesAt_eq hroot] at hfile
    exact h.unlogged root hroot file hfile

theorem Shared.records_eq {roots : List Path} (h : Shared w roots) :
    clojurescript.records w roots = (clojure.records w roots).map Namespace.withoutMacros := by
  simp only [records, List.map_flatMap, List.map_filterMap]
  refine List.flatMap_congr fun root hroot => ?_
  rw [h.filesAt_eq hroot]
  exact List.filterMap_congr fun file hfile => recordAt_eq (h.readAt hroot hfile)

/-- Shared sources are read to the same namespaces in one pass and in two, but for the order
of the variables: in two passes the macros come last. -/
theorem read_shared_in_two_passes {w : Workspace} {roots : List Path} (shared : Shared w roots)
    (r : Recovery) :
    ∃ once others macros w₁ w₂ w₃, clojure.read r roots w = (.ok once, w₁) ∧
      clojurescript.read r roots w = (.ok others, w₂) ∧
      readMacros r roots w₂ = (.ok macros, w₃) ∧
      mergeNamespaces (others ++ macros) = (mergeNamespaces once).map Namespace.macrosLast ∧
      ∀ ns ∈ mergeNamespaces once, ns.macrosLast.publics.Perm ns.publics := by
  have hclojure := returns_read r shared.readable_clojure
  have hmacros : Action.Returns w (readMacros r roots) (macrosOnly (clojure.records w roots)) :=
    Action.returns_bind hclojure (Action.returns_pure _)
  obtain ⟨w₁, honce, -⟩ := hclojure w (.refl w)
  obtain ⟨w₂, hothers, halike⟩ := returns_read r shared.readable_clojurescript w (.refl w)
  obtain ⟨w₃, hlast, -⟩ := hmacros w₂ halike
  refine ⟨_, _, _, w₁, w₂, w₃, honce, hothers, hlast, ?_, fun ns _ => ns.publics_macrosLast_perm⟩
  rw [shared.records_eq]
  exact mergeNamespaces_macros_apart _

def sharedFiles : Workspace :=
  let bytes (t : Text) : Bytes := t.map fun c => c.toNat.toUInt8
  { cwd := ⟨true, []⟩,
    tree := ⟨[(["a.cljc"], .file (bytes "(ns a)(defmacro m[])(def x 1)")),
      (["b.cljc"], .file (bytes "(ns a)(def y 2)"))]⟩ }

def sharedRoots : List Path := [Path.ofText "a.cljc", Path.ofText "b.cljc"]

theorem shared_sharedFiles : Shared sharedFiles sharedRoots where
  existing := by decide +kernel
  common := by decide +kernel
  reads := by
    have hreads : ∀ root ∈ sharedRoots, ∀ file ∈ clojure.filesAt sharedFiles root,
        (clojure.readAt sharedFiles file).toBool = true := by decide +kernel
    intro root hroot file hfile
    have hread := hreads root hroot file hfile
    cases hfound : clojure.readAt sharedFiles file with
    | error e =>
        rw [hfound] at hread
        cases hread
    | ok found => exact ⟨found, rfl⟩
  unconditional := by
    have htokens : ∀ root ∈ sharedRoots, ∀ file ∈ clojure.filesAt sharedFiles root,
        (((sharedFiles.tree.readText sharedFiles.cwd file.path).toOption.bind fun text =>
          (Token.tokenize text).toOption).all fun ts =>
            ts.all fun t => !t.lexeme.isConditional) = true := by decide +kernel
    intro root hroot file hfile text ts htext hts t ht
    have hall := htokens root hroot file hfile
    rw [htext] at hall
    simp only [Except.toOption, Option.bind_some, hts, Option.all_some, List.all_eq_true] at hall
    simpa using hall t ht
  unlogged := by
    rintro root hroot file hfile place hplace ⟨l, hl, -⟩
    cases hl

/-- In one pass the macro stays first, in two it comes last. -/
theorem read_sharedFiles_in_two_passes :
    ∃ once others macros w₁ w₂ w₃,
      clojure.read .stop sharedRoots sharedFiles = (.ok once, w₁) ∧
      clojurescript.read .stop sharedRoots sharedFiles = (.ok others, w₂) ∧
      readMacros .stop sharedRoots w₂ = (.ok macros, w₃) ∧
      (mergeNamespaces once).map (fun ns => ns.publics.map Var.name) =
        [[Text.ofString "m", "x", "y"]] ∧
      (mergeNamespaces (others ++ macros)).map (fun ns => ns.publics.map Var.name) =
        [[Text.ofString "x", "y", "m"]] := by
  obtain ⟨once, others, macros, w₁, w₂, w₃, honce, hothers, hmacros, hmerged, -⟩ :=
    read_shared_in_two_passes shared_sharedFiles .stop
  have hnames : (clojure.read .stop sharedRoots sharedFiles).1.toOption.map
      (fun nss => (mergeNamespaces nss).map fun ns => ns.publics.map Var.name) =
      some [[Text.ofString "m", "x", "y"]] := by decide +kernel
  have hlast : (clojure.read .stop sharedRoots sharedFiles).1.toOption.map
      (fun nss => (mergeNamespaces nss).map fun ns => ns.macrosLast.publics.map Var.name) =
      some [[Text.ofString "x", "y", "m"]] := by decide +kernel
  rw [honce] at hnames hlast
  refine ⟨once, others, macros, w₁, w₂, w₃, honce, hothers, hmacros, Option.some.inj hnames, ?_⟩
  rw [hmerged, List.map_map]
  exact Option.some.inj hlast

end Dialect

end Docsmith
