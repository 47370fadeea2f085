import Docsmith.Proofs.Extraction
import Docsmith.Proofs.Passes
import Docsmith.Proofs.Provenance

/-!
# What is read, and from where

Every record is read from one source file, and its variables name that file as it is named
under its source path.  The namespaces of a run are made of these records: merged, selected,
located and completed.
-/

namespace Docsmith

/-! ## What definitions give -/

def Value.Textual (v : Value) : Prop := ∃ t, v = .ofText? t

theorem Value.textual_null : Value.Textual .null := ⟨none, rfl⟩

theorem Value.textual_str (t : Text) : Value.Textual (.str t) := ⟨some t, rfl⟩

/-- A variable as it is read from a file: it names the file and a line, and has no path yet. -/
structure VarFacts.Made (file : Text) (f : VarFacts) : Prop where
  doc : f.doc.Textual
  added : f.added.Textual
  deprecated : f.deprecated.Textual
  file : f.file = .str file
  line : ∃ n : Nat, f.line = .int n
  path : f.path = .null

structure Namespace.Made (file : Text) (ns : Namespace) : Prop where
  doc : ns.doc.Textual
  added : ns.added.Textual
  deprecated : ns.deprecated.Textual
  author : ns.author.Textual
  publics : ∀ f ∈ Var.flattenAll ns.publics, f.Made file

namespace Definition

theorem textual_textOnly (f : Option Form) : (textOnly f).Textual := by
  unfold textOnly
  split
  · exact Value.textual_str _
  · exact Value.textual_null

theorem textual_docOf (attrs : Attrs) (doc : Option Form) : (docOf attrs doc).Textual := by
  unfold docOf
  split
  · exact Value.textual_str _
  · exact textual_textOnly doc

theorem textual_of_version {f : Option Form} {v : Value} (h : version f = .ok v) : v.Textual := by
  unfold version at h
  split at h
  · cases h
    exact Value.textual_null
  · cases h
    exact Value.textual_null
  · cases h
    exact Value.textual_null
  · cases h
    exact Value.textual_str _
  · obtain ⟨t, -, rfl⟩ := exists_of_map_eq_ok h
    exact Value.textual_str t

theorem made_leaf {file : Text} {f : VarFacts} (hf : f.Made file) :
    ∀ g ∈ (Var.mk f []).flatten, g.Made file := by
  intro g hg
  obtain rfl : g = f := by simpa [Var.flatten, Var.flattenAll] using hg
  exact hf

theorem made_of_members {file : Text} {forms : List Form} {vars : List Var}
    (h : members file forms = .ok vars) : ∀ f ∈ Var.flattenAll vars, f.Made file := by
  fun_induction members file forms generalizing vars with
  | case1 =>
      cases h
      intro f hf
      cases hf
  | case2 _ _ rest ih => exact ih h
  | case3 line name attrs signature rest ih =>
      obtain ⟨arglists, -, h⟩ := exists_of_bind_eq_ok h
      obtain ⟨more, hmore, h⟩ := exists_of_bind_eq_ok h
      cases h
      intro f hf
      rcases List.mem_append.1 hf with hf | hf
      · refine made_leaf ?_ f hf
        exact ⟨textual_textOnly _, Value.textual_null, Value.textual_null, rfl, ⟨line, rfl⟩, rfl⟩
      · exact ih hmore f hf
  | case4 _ rest _ _ ih => exact ih h

theorem made_of_factories (isRecord : Bool) (ns file name : Text) (line : Nat) (fields : Text) :
    ∀ f ∈ Var.flattenAll (factories isRecord ns file name line fields), f.Made file := by
  intro f hf
  obtain ⟨v, hv, hf⟩ := Var.mem_flattenAll.1 hf
  obtain ⟨own, doc, arglist, rfl, -⟩ := exists_of_mem_factories hv
  refine made_leaf ?_ f hf
  exact ⟨Value.textual_str doc, Value.textual_null, Value.textual_null, rfl, ⟨line, rfl⟩, rfl⟩

theorem made_of_bodyOf {kind file : Text} {attrs : Attrs} {rest : List Form} {b : Body}
    (h : bodyOf kind file attrs rest = .ok b) :
    ∀ f ∈ Var.flattenAll b.members, f.Made file := by
  unfold bodyOf at h
  split at h
  · cases h
    nofun
  · obtain ⟨⟨attrs', rest'⟩, -, h⟩ := exists_of_bind_eq_ok h
    simp only at h
    split at h
    · obtain ⟨vars, hvars, h⟩ := exists_of_bind_eq_ok h
      cases h
      exact made_of_members hvars
    · split at h
      · cases h
        nofun
      · cases h
        nofun

theorem made_of_toVar {name kind file : Text} {line : Nat} {b : Body} {v : Var}
    (hbody : ∀ f ∈ Var.flattenAll b.members, f.Made file)
    (h : toVar name kind file line b = .ok v) : ∀ f ∈ v.flatten, f.Made file := by
  obtain ⟨arglists, added, deprecated, attrs, -, hadded, hdeprecated, -, rfl⟩ := exists_of_toVar h
  intro f hf
  rcases List.mem_cons.1 hf with rfl | hf
  · exact ⟨textual_docOf _ _, textual_of_version hadded, textual_of_version hdeprecated, rfl,
      ⟨line, rfl⟩, rfl⟩
  · exact hbody f hf

theorem made_of_publics {macros : Bool} {ns file head : Text} {line : Nat} {rest : List Form}
    {vars : List Var} (h : publics macros ns file head line rest = .ok vars) :
    ∀ f ∈ Var.flattenAll vars, f.Made file := by
  cases publishes_of_publics h with
  | nothing => nofun
  | factories => exact made_of_factories _ _ _ _ _ _
  | single known visible body made =>
      intro f hf
      rw [Var.flattenAll, Var.flattenAll, List.append_nil] at hf
      exact made_of_toVar (made_of_bodyOf body) made f hf

theorem made_of_publicsOf {macros : Bool} {ns file : Text} {forms : List Form} {vars : List Var}
    (h : publicsOf macros ns file forms = .ok vars) :
    ∀ f ∈ Var.flattenAll vars, f.Made file := by
  intro f hf
  obtain ⟨v, hv, hf⟩ := Var.mem_flattenAll.1 hf
  obtain ⟨line, head, attrs, rest, part, -, hpart, hv⟩ := exists_of_mem_publicsOf h hv
  exact made_of_publics hpart f (Var.mem_flattenAll.2 ⟨v, hv, hf⟩)

theorem made_of_namespaceOf {file : Text} {hd : Header} {vars : List Var} {ns : Namespace}
    (hvars : ∀ f ∈ Var.flattenAll vars, f.Made file) (h : namespaceOf hd vars = .ok ns) :
    ns.Made file := by
  obtain ⟨attrs, rest, added, deprecated, extra, -, hadded, hdeprecated, -, rfl⟩ :=
    exists_of_namespaceOf h
  exact ⟨textual_docOf _ _, textual_of_version hadded, textual_of_version hdeprecated,
    textual_textOnly _, hvars⟩

theorem made_of_ofForms {macros : Bool} {file : Text} {forms : List Form} {ns : Namespace}
    (h : ofForms macros file forms = .ok (some ns)) : ns.Made file := by
  obtain ⟨before, first, hd, rest, vars, -, -, -, hvars, hns⟩ := exists_header_of_ofForms h
  exact made_of_namespaceOf (made_of_publicsOf hvars) hns

end Definition

/-! ## Where records are read from -/

namespace Dialect

structure Origin where
  before : List Path
  root : Path
  file : SourceFile

/-- The source files under the roots in the order in which they are read, after those of
other roots. -/
def origins (d : Dialect) (w : Workspace) : List Path → List Path → List Origin
  | _, [] => []
  | before, root :: roots =>
      (d.filesAt w root).map (⟨before, root, ·⟩) ++ d.origins w (before ++ [root]) roots

/-- What source files yield, one after the other: a record or none.  Only log files may
change meanwhile. -/
inductive Yields (d : Dialect) (w : Workspace) :
    List Origin → List (Origin × Namespace) → Prop
  | nil : Yields d w [] []
  | cons {origin : Origin} {origins : List Origin} {readings : List (Origin × Namespace)}
      (seen : Workspace) (alike : w.Alike seen) (rest : Yields d w origins readings) :
      Yields d w (origin :: origins)
        (((d.recordAt seen origin.file).map (origin, ·)).toList ++ readings)

variable {d : Dialect} {w : Workspace}

theorem Yields.append {origins origins' : List Origin}
    {readings readings' : List (Origin × Namespace)} (h : Yields d w origins readings)
    (h' : Yields d w origins' readings') :
    Yields d w (origins ++ origins') (readings ++ readings') := by
  induction h with
  | nil => exact h'
  | cons seen alike _ ih =>
      rw [List.append_assoc]
      exact .cons seen alike ih

theorem Yields.exists_of_mem {origins : List Origin} {readings : List (Origin × Namespace)}
    (h : Yields d w origins readings) {reading : Origin × Namespace} (mem : reading ∈ readings) :
    reading.1 ∈ origins ∧ ∃ seen, w.Alike seen ∧
      d.readAt seen reading.1.file = .ok (some reading.2) := by
  induction h with
  | nil => cases mem
  | @cons origin origins readings seen alike _ ih =>
      rcases List.mem_append.1 mem with mem | mem
      · obtain ⟨ns, hns, rfl⟩ := Option.map_eq_some_iff.1 (Option.mem_toList.1 mem)
        refine ⟨List.mem_cons_self, seen, alike, ?_⟩
        unfold recordAt at hns
        cases hread : d.readAt seen origin.file with
        | error e =>
            rw [hread] at hns
            cases hns
        | ok found =>
            rw [hread] at hns
            exact congrArg Except.ok hns
      · obtain ⟨hmem, hseen⟩ := ih mem
        exact ⟨List.mem_cons_of_mem _ hmem, hseen⟩

theorem made_of_readAt {file : SourceFile} {ns : Namespace} {seen : Workspace}
    (h : d.readAt seen file = .ok (some ns)) : ns.Made file.relativeName := by
  unfold readAt namespaceOfText at h
  split at h
  · cases h
  · split at h
    · cases h
    · exact Definition.made_of_ofForms h

theorem exists_of_mem_origins {before roots : List Path} {origin : Origin}
    (h : origin ∈ d.origins w before roots) :
    (∃ after, before ++ roots = origin.before ++ origin.root :: after) ∧
      origin.file ∈ d.filesAt w origin.root := by
  induction roots generalizing before with
  | nil => cases h
  | cons root roots ih =>
      rcases List.mem_append.1 h with h | h
      · obtain ⟨file, hfile, rfl⟩ := List.mem_map.1 h
        exact ⟨⟨roots, rfl⟩, hfile⟩
      · obtain ⟨⟨after, hafter⟩, hfile⟩ := ih h
        exact ⟨⟨after, by simpa using hafter⟩, hfile⟩

/-! ### One pass -/

theorem yields_of_readFile {r : Recovery} (origin : Origin) {mid w' : Workspace}
    {nss : List Namespace} (alike : w.Alike mid)
    (h : d.readFile r origin.file mid = (.ok nss, w')) :
    w.Alike w' ∧ ∃ readings, Yields d w [origin] readings ∧ nss = readings.map Prod.snd := by
  obtain ⟨-, log, hlogs, -⟩ := gives_readFile d r origin.file mid nss w' h
  refine ⟨alike.trans hlogs.alike, _, .cons mid alike .nil, ?_⟩
  obtain ⟨text, same, htext, h⟩ := Action.exists_of_bind h
  cases htext
  cases hread : d.readAt mid origin.file with
  | ok found =>
      rw [readAt] at hread
      rw [hread] at h
      rw [recordAt_eq hread]
      cases found with
      | some ns =>
          cases h
          rfl
      | none =>
          obtain ⟨_, last, -, h⟩ := Action.exists_of_bind h
          cases h
          rfl
  | error e =>
      rw [recordAt, hread]
      rw [readAt] at hread
      rw [hread] at h
      cases e with
      | source path reason =>
          cases r with
          | handOver =>
              obtain ⟨_, last, -, h⟩ := Action.exists_of_bind h
              cases h
              rfl
          | stop => cases h
          | misuse => cases h
      | _ => cases h

theorem yields_of_readFiles {r : Recovery} (before : List Path) (root : Path)
    {files : List SourceFile} {mid w' : Workspace} {nss : List Namespace} (alike : w.Alike mid)
    (h : d.readFiles r files mid = (.ok nss, w')) :
    w.Alike w' ∧ ∃ readings, Yields d w (files.map (⟨before, root, ·⟩)) readings ∧
      nss = readings.map Prod.snd := by
  induction files generalizing mid nss with
  | nil =>
      cases h
      exact ⟨alike, [], .nil, rfl⟩
  | cons file files ih =>
      obtain ⟨first, next, hfirst, h⟩ := Action.exists_of_bind h
      obtain ⟨rest, last, hrest, h⟩ := Action.exists_of_bind h
      cases h
      obtain ⟨halike, readings, hyields, rfl⟩ :=
        yields_of_readFile ⟨before, root, file⟩ alike hfirst
      obtain ⟨hlast, readings', hyields', rfl⟩ := ih halike hrest
      exact ⟨hlast, readings ++ readings', hyields.append hyields', by rw [List.map_append]⟩

theorem yields_of_readRoots {r : Recovery} (before : List Path) {roots : List Path}
    {mid w' : Workspace} {nss : List Namespace} (alike : w.Alike mid)
    (h : d.readRoots r roots mid = (.ok nss, w')) :
    w.Alike w' ∧ ∃ readings, Yields d w (d.origins w before roots) readings ∧
      nss = readings.map Prod.snd := by
  induction roots generalizing before mid nss with
  | nil =>
      cases h
      exact ⟨alike, [], .nil, rfl⟩
  | cons root roots ih =>
      obtain ⟨here, same, hhere, h⟩ := Action.exists_of_bind h
      cases hhere
      obtain ⟨files, same, hgiven, h⟩ := Action.exists_of_bind h
      obtain ⟨hfiles, rfl⟩ := Action.eq_of_ofExcept hgiven
      obtain ⟨first, next, hfirst, h⟩ := Action.exists_of_bind h
      obtain ⟨rest, last, hrest, h⟩ := Action.exists_of_bind h
      cases h
      rw [sourceFiles_of_alike alike] at hfiles
      obtain ⟨halike, readings, hyields, rfl⟩ :=
        yields_of_readFiles before root alike hfirst
      obtain ⟨hlast, readings', hyields', rfl⟩ := ih (before ++ [root]) halike hrest
      refine ⟨hlast, readings ++ readings', ?_, by rw [List.map_append]⟩
      have hat : d.filesAt w root = files := by
        rw [filesAt, hfiles]
        rfl
      rw [origins, hat]
      exact hyields.append hyields'

theorem yields_of_read {r : Recovery} {roots : List Path} {mid w' : Workspace}
    {nss : List Namespace} (alike : w.Alike mid) (h : d.read r roots mid = (.ok nss, w')) :
    w.Alike w' ∧ ∃ readings, Yields d w (d.origins w [] roots) readings ∧
      nss = readings.map Prod.snd := by
  obtain ⟨found, next, hfound, h⟩ := Action.exists_of_bind h
  obtain ⟨_, last, hlogged, h⟩ := Action.exists_of_bind h
  cases h
  obtain ⟨halike, hreadings⟩ := yields_of_readRoots [] alike hfound
  obtain rfl := congrArg Prod.snd hlogged
  exact ⟨halike.trans (Workspace.alike_record next _), hreadings⟩

def macroReadings (readings : List (Origin × Namespace)) : List (Origin × Namespace) :=
  (readings.map fun r => (r.1, { r.2 with publics := r.2.publics.filter Var.isMacro })).filter
    fun r => !r.2.publics.isEmpty

theorem macrosOnly_map_snd (readings : List (Origin × Namespace)) :
    macrosOnly (readings.map Prod.snd) = (macroReadings readings).map Prod.snd := by
  simp only [macrosOnly, macroReadings, List.map_map, List.filter_map, Function.comp_def]

end Dialect

/-! ## The records of a run -/

namespace Run

open Dialect

/-- What the passes over the sources read, each record with the file it was read from. -/
def ReadsFrom (o : Options) (w : Workspace) (readings : List (Origin × Namespace)) : Prop :=
  ∃ d first, resolveReader builtInReaders [] (.str o.language) = .ok d ∧
    Yields d w (d.origins w [] o.sourceRoots) first ∧
    if d.needsMacroPass then
      ∃ second, Yields clojure w (clojure.origins w [] o.sourceRoots) second ∧
        readings = first ++ macroReadings second
    else readings = first

theorem readsFrom_of_readSources {o : Options} {d : Dialect} {w mid : Workspace}
    {records : List Namespace}
    (hd : resolveReader builtInReaders [] (.str o.language) = .ok d)
    (h : readSources o d w = (.ok records, mid)) :
    w.Alike mid ∧ ∃ readings, ReadsFrom o w readings ∧ records = readings.map Prod.snd := by
  obtain ⟨reader, first, hreader, h⟩ := Action.exists_of_bind h
  obtain ⟨halike, readings, hyields, rfl⟩ := yields_of_read (.refl w) hreader
  split at h
  case isTrue hpass =>
    obtain ⟨macros, second, hmacros, h⟩ := Action.exists_of_bind h
    obtain ⟨_, third, hlogged, h⟩ := Action.exists_of_bind h
    obtain ⟨all, last, hall, hmacros⟩ := Action.exists_of_bind hmacros
    cases h
    cases hmacros
    obtain ⟨halike', readings', hyields', rfl⟩ := yields_of_read halike hall
    obtain rfl := congrArg Prod.snd hlogged
    refine ⟨halike'.trans (Workspace.alike_record second _), readings ++ macroReadings readings',
      ⟨d, readings, hd, hyields, ?_⟩, ?_⟩
    · rw [if_pos hpass]
      exact ⟨readings', hyields', rfl⟩
    · rw [macrosOnly_map_snd, List.map_append]
  case isFalse hpass =>
    cases h
    refine ⟨halike, readings, ⟨d, readings, hd, hyields, ?_⟩, rfl⟩
    rw [if_neg hpass]

/-- A reading of a run is of a source file under one of the source paths.  What was read there
holds all the variables of the record. -/
structure Genuine (o : Options) (w : Workspace) (reading : Origin × Namespace) : Prop where
  under : ∃ after, o.sourceRoots = reading.1.before ++ reading.1.root :: after
  read : ∃ d ∈ Dialect.all, ∃ (seen : Workspace) (ns : Namespace), w.Alike seen ∧
    reading.1.file ∈ d.filesAt w reading.1.root ∧
    d.readAt seen reading.1.file = .ok (some ns) ∧ reading.2.publics ⊆ ns.publics ∧
    reading.2 = { ns with publics := reading.2.publics }

theorem mem_all_of_resolveReader {language : Value} {d : Dialect}
    (h : resolveReader builtInReaders [] language = .ok d) : d ∈ Dialect.all := by
  unfold resolveReader at h
  split at h
  · cases h
  dsimp only at h
  split at h
  case h_1 found hfound =>
    cases h
    obtain ⟨before, after, hbuiltIn, -⟩ := List.lookup_eq_some_iff.1 hfound
    have hmem := hbuiltIn ▸ List.mem_append_right before List.mem_cons_self
    obtain ⟨d', hd', heq⟩ := List.mem_map.1 hmem
    obtain rfl : d' = d := congrArg Prod.snd heq
    exact hd'
  case h_2 => cases h

theorem genuine_of_yields {o : Options} {w : Workspace} {d : Dialect} (hd : d ∈ Dialect.all)
    {readings : List (Origin × Namespace)}
    (h : Yields d w (d.origins w [] o.sourceRoots) readings) :
    ∀ reading ∈ readings, Genuine o w reading := by
  intro reading mem
  obtain ⟨horigin, seen, alike, hread⟩ := h.exists_of_mem mem
  obtain ⟨hunder, hfile⟩ := exists_of_mem_origins horigin
  exact ⟨hunder, d, hd, seen, reading.2, alike, hfile, hread, fun _ => id, rfl⟩

theorem Genuine.restrict {o : Options} {w : Workspace} {origin : Origin} {ns : Namespace}
    (h : Genuine o w (origin, ns)) {publics : List Var} (hsub : publics ⊆ ns.publics) :
    Genuine o w (origin, { ns with publics := publics }) := by
  obtain ⟨hunder, d, hd, seen, all, alike, hfile, hread, hall, hns⟩ := h
  refine ⟨hunder, d, hd, seen, all, alike, hfile, hread, fun _ hv => hall (hsub hv), ?_⟩
  have hns : ns = { all with publics := ns.publics } := hns
  rw [hns]

theorem ReadsFrom.genuine {o : Options} {w : Workspace} {readings : List (Origin × Namespace)}
    (h : ReadsFrom o w readings) : ∀ reading ∈ readings, Genuine o w reading := by
  obtain ⟨d, first, hd, hfirst, h⟩ := h
  have hd := mem_all_of_resolveReader hd
  split at h
  · obtain ⟨second, hsecond, rfl⟩ := h
    intro reading mem
    rcases List.mem_append.1 mem with mem | mem
    · exact genuine_of_yields hd hfirst reading mem
    · obtain ⟨old, hold, rfl⟩ := List.mem_map.1 (List.mem_filter.1 mem).1
      exact (genuine_of_yields (by decide) hsecond old hold).restrict List.filter_sublist.subset
  · subst h
    exact genuine_of_yields hd hfirst

theorem Genuine.made {o : Options} {w : Workspace} {reading : Origin × Namespace}
    (h : Genuine o w reading) : reading.2.Made reading.1.file.relativeName := by
  obtain ⟨-, d, -, seen, ns, -, -, hread, hsub, hns⟩ := h
  have hmade := made_of_readAt hread
  rw [hns]
  refine ⟨hmade.doc, hmade.added, hmade.deprecated, hmade.author, fun f hf => ?_⟩
  obtain ⟨v, hv, hf⟩ := Var.mem_flattenAll.1 hf
  exact hmade.publics f (Var.mem_flattenAll.2 ⟨v, hsub hv, hf⟩)

theorem exists_readings_of_readNamespaces {o : Options} {w w' : Workspace}
    {result : List Namespace} (h : readNamespaces o w = (.ok result, w')) :
    ∃ readings seen, ReadsFrom o w readings ∧ w.Alike seen ∧
      result = addDefaults o.metadata
        (((selectedNames o.namespaces (readings.map Prod.snd)).map
          (remaining o.excludeVars (readings.map Prod.snd))).map
            (Namespace.located seen.tree seen.cwd o.root o.sourceRoots)) := by
  obtain ⟨d, start, hd, hsources⟩ := Action.exists_of_bind h
  obtain ⟨hresolved, rfl⟩ := Action.eq_of_ofExcept hd
  obtain ⟨records, read, hrecords, hexclude⟩ := Action.exists_of_bind hsources
  obtain ⟨_, logged, hexcluded, hlocate⟩ := Action.exists_of_bind hexclude
  obtain ⟨here, same, hhere, hsearch⟩ := Action.exists_of_bind hlocate
  obtain ⟨⟨nss, missing⟩, found, hfound, hcomplete⟩ := Action.exists_of_bind hsearch
  obtain ⟨hpaths, rfl⟩ := Action.eq_of_ofExcept hfound
  obtain ⟨_, last, -, hdone⟩ := Action.exists_of_bind hcomplete
  cases hhere
  obtain ⟨hcompleted, rfl⟩ := Action.eq_of_ofExcept hdone
  obtain rfl := eq_addDefaults_of_complete hcompleted
  obtain ⟨halike, readings, hreads, rfl⟩ := readsFrom_of_readSources hresolved hrecords
  rw [selectNamespaces_merge, removeExcluded_merged] at hpaths
  refine ⟨readings, logged, hreads,
    halike.trans (Action.logs_of_recordAll hexcluded).alike, ?_⟩
  have hroots : (o.sourcePaths.map Path.ofText).map o.root.join = o.sourceRoots := by
    rw [List.map_map]
    rfl
  rcases addSourcePaths_eq logged.tree logged.cwd o.root (o.sourcePaths.map Path.ofText)
    ((selectedNames o.namespaces (readings.map Prod.snd)).map
      (remaining o.excludeVars (readings.map Prod.snd))) with ⟨log, hlocated⟩ | ⟨-, e, he⟩
  · rw [hlocated, hroots] at hpaths
    cases hpaths
    rfl
  · rw [he] at hpaths
    cases hpaths

def singleSource (text : Text) : Workspace :=
  { cwd := ⟨true, []⟩, tree := ⟨[(["a.clj"], .file (text.map fun c => c.toNat.toUInt8))]⟩ }

def singleOptions : Options :=
  { root := ⟨true, []⟩, sourcePaths := ["a.clj"], commit := .known .null }

end Run

end Docsmith
