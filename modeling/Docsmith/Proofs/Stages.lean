import Docsmith.Pipeline.Defaults
import Docsmith.Proofs.Merging
import Docsmith.Proofs.Provenance

/-!
# The order of the stages does not matter

Merging, selection, exclusion, source paths and defaults: any two of these stages commute, as
long as no default says what the file of a variable is.  Merging looks at names alone and joins
variables; selection looks at names alone; and each of the other stages changes one namespace
at a time, keeps its name, and treats its variables one by one.
-/

namespace Docsmith

/-! ## Changes of one namespace -/

structure Uniform (f : Namespace → Namespace) : Prop where
  name (ns : Namespace) : (f ns).name = ns.name
  append (m ns : Namespace) :
    f { m with publics := m.publics ++ ns.publics } =
      { f m with publics := (f m).publics ++ (f ns).publics }

theorem mergeInto_map {f : Namespace → Namespace} (hf : Uniform f) (ns : Namespace)
    (groups : List Namespace) :
    mergeInto (f ns) (groups.map f) = (mergeInto ns groups).map f := by
  induction groups with
  | nil => rfl
  | cons m groups ih =>
      have hnames : (f m).name = (f ns).name ↔ m.name = ns.name := by rw [hf.name, hf.name]
      rw [List.map_cons, mergeInto, mergeInto]
      by_cases h : m.name = ns.name
      · rw [if_pos (hnames.2 h), if_pos h, List.map_cons, hf.append]
      · rw [if_neg (mt hnames.1 h), if_neg h, List.map_cons, ih]

theorem mergeNamespaces_concat (nss : List Namespace) (ns : Namespace) :
    mergeNamespaces (nss ++ [ns]) = mergeInto ns (mergeNamespaces nss) := by
  simp [mergeNamespaces]

theorem mergeNamespaces_map {f : Namespace → Namespace} (hf : Uniform f) (nss : List Namespace) :
    mergeNamespaces (nss.map f) = (mergeNamespaces nss).map f := by
  induction nss using List.reverseRecOn with
  | nil => rfl
  | append_singleton nss ns ih =>
      rw [List.map_append, List.map_singleton, mergeNamespaces_concat, mergeNamespaces_concat, ih,
        mergeInto_map hf]

theorem selectNamespaces_map {f : Namespace → Namespace} (hf : Uniform f)
    (patterns : Option (List Selector)) (nss : List Namespace) :
    selectNamespaces patterns (nss.map f) = (selectNamespaces patterns nss).map f := by
  rw [selectNamespaces_eq, selectNamespaces_eq, List.filter_map]
  simp only [Function.comp_def, hf.name]

/-! ## Merging what is selected -/

theorem filter_mergeInto_of_pos {keep : Option Text → Bool} {ns : Namespace}
    (h : keep ns.name = true) (groups : List Namespace) :
    (mergeInto ns groups).filter (fun m => keep m.name) =
      mergeInto ns (groups.filter fun m => keep m.name) := by
  induction groups with
  | nil => simp [mergeInto, h]
  | cons m groups ih =>
      by_cases hm : m.name = ns.name
      · simp [mergeInto, hm, h]
      · by_cases hkeep : keep m.name = true <;> simp [mergeInto, hm, hkeep, ih]

theorem filter_mergeInto_of_neg {keep : Option Text → Bool} {ns : Namespace}
    (h : ¬keep ns.name = true) (groups : List Namespace) :
    (mergeInto ns groups).filter (fun m => keep m.name) =
      groups.filter fun m => keep m.name := by
  induction groups with
  | nil => simp [mergeInto, h]
  | cons m groups ih =>
      by_cases hm : m.name = ns.name
      · simp [mergeInto, hm, h]
      · by_cases hkeep : keep m.name = true <;> simp [mergeInto, hm, hkeep, ih]

theorem mergeNamespaces_filter (keep : Option Text → Bool) (nss : List Namespace) :
    mergeNamespaces (nss.filter fun ns => keep ns.name) =
      (mergeNamespaces nss).filter fun ns => keep ns.name := by
  induction nss using List.reverseRecOn with
  | nil => rfl
  | append_singleton nss ns ih =>
      rw [List.filter_append, mergeNamespaces_concat]
      by_cases h : keep ns.name = true
      · rw [filter_mergeInto_of_pos h, ← ih, ← mergeNamespaces_concat]
        simp [h]
      · rw [filter_mergeInto_of_neg h, ← ih]
        simp [h]

/-! ## Trees of variables -/

namespace Var

theorem mapAll_eq_map (f : VarFacts → VarFacts) (vs : List Var) : mapAll f vs = vs.map (map f) := by
  induction vs with
  | nil => rfl
  | cons v vs ih => rw [mapAll, ih, List.map_cons]

mutual
theorem map_map (f g : VarFacts → VarFacts) : (v : Var) → map f (map g v) = map (f ∘ g) v
  | .mk facts members => by
      rw [map, map, map, mapAll_mapAll f g members]
      rfl

theorem mapAll_mapAll (f g : VarFacts → VarFacts) :
    (vs : List Var) → mapAll f (mapAll g vs) = mapAll (f ∘ g) vs
  | [] => rfl
  | v :: vs => by rw [mapAll, mapAll, mapAll, map_map f g v, mapAll_mapAll f g vs]
end

mutual
theorem flatten_map (f : VarFacts → VarFacts) : (v : Var) → (map f v).flatten = v.flatten.map f
  | .mk facts members => by
      rw [map, flatten, flatten, flattenAll_mapAll f members, List.map_cons]

theorem flattenAll_mapAll (f : VarFacts → VarFacts) :
    (vs : List Var) → flattenAll (mapAll f vs) = (flattenAll vs).map f
  | [] => rfl
  | v :: vs => by
      rw [mapAll, flattenAll, flattenAll, flatten_map f v, flattenAll_mapAll f vs, List.map_append]
end

mutual
theorem map_congr {f g : VarFacts → VarFacts} :
    (v : Var) → (∀ facts ∈ v.flatten, f facts = g facts) → map f v = map g v
  | .mk facts members, h => by
      rw [map, map, h facts List.mem_cons_self,
        mapAll_congr members fun facts hfacts => h facts (List.mem_cons_of_mem _ hfacts)]

theorem mapAll_congr {f g : VarFacts → VarFacts} :
    (vs : List Var) → (∀ facts ∈ flattenAll vs, f facts = g facts) → mapAll f vs = mapAll g vs
  | [], _ => rfl
  | v :: vs, h => by
      rw [mapAll, mapAll, map_congr v fun facts hfacts => h facts (List.mem_append_left _ hfacts),
        mapAll_congr vs fun facts hfacts => h facts (List.mem_append_right _ hfacts)]
end

theorem filter_mapAll {f : VarFacts → VarFacts} (hname : ∀ facts, (f facts).name = facts.name)
    (exclusion : Option Regex) (vs : List Var) :
    (mapAll f vs).filter (fun v => !excludes exclusion v) =
      mapAll f (vs.filter fun v => !excludes exclusion v) := by
  have hexcludes (v : Var) : excludes exclusion (map f v) = excludes exclusion v := by
    obtain ⟨facts, members⟩ := v
    simp only [excludes, name, map, Var.facts, hname]
  rw [mapAll_eq_map, mapAll_eq_map, List.filter_map]
  simp only [Function.comp_def, hexcludes]

end Var

/-! ## Source paths and defaults -/

theorem fill_of_not_named {defaults : Dict} {field : Text}
    (h : ∀ e ∈ defaults, fieldSpelling e.1 ≠ field) (v : Value) : fill defaults field v = v := by
  have hnone : defaultFor defaults field = none := by
    rw [defaultFor, Option.map_eq_none_iff, List.find?_eq_none]
    intro e he
    simpa using h e (List.mem_reverse.1 he)
  cases v <;> simp [fill, Value.isNull, hnone]

namespace VarFacts

variable (t : FileTree) (cwd root : Path) (roots : List Path)

theorem withPath_name (f : VarFacts) (path : Option Text) : (f.withPath path).name = f.name := by
  cases path <;> rfl

theorem withPath_file (f : VarFacts) (path : Option Text) : (f.withPath path).file = f.file := by
  cases path <;> rfl

theorem withPath_overlay (defaults : Dict) (f : VarFacts) (path : Option Text) :
    (f.overlay defaults).withPath path = (f.withPath path).overlay defaults := by
  cases path <;> rfl

theorem located_name (f : VarFacts) : (f.located t cwd root roots).name = f.name := by
  unfold located
  split
  · exact withPath_name f _
  · rfl

theorem located_file (f : VarFacts) : (f.located t cwd root roots).file = f.file := by
  unfold located
  split
  · exact withPath_file f _
  · rfl

theorem located_overlay {defaults : Dict} (h : ∀ e ∈ defaults, fieldSpelling e.1 ≠ "file")
    (f : VarFacts) :
    (f.overlay defaults).located t cwd root roots =
      (f.located t cwd root roots).overlay defaults := by
  have hfile : (f.overlay defaults).file = f.file := fill_of_not_named h f.file
  unfold located
  rw [hfile]
  split
  · exact withPath_overlay defaults f _
  · rfl

end VarFacts

/-! ## The stages -/

inductive Stage where
  | merge
  | select
  | exclude
  | locate
  | complete
deriving DecidableEq, Repr

structure Plan where
  patterns : Option (List Selector)
  exclusion : Option Regex
  tree : FileTree
  cwd : Path
  root : Path
  sources : List Path
  defaults : Dict

namespace Plan

/-- What a stage makes of namespaces.  Only the search for source paths can fail. -/
def run (p : Plan) (nss : List Namespace) : Stage → Except Failure (List Namespace)
  | .merge => .ok (mergeNamespaces nss)
  | .select => .ok (selectNamespaces p.patterns nss)
  | .exclude => .ok (removeExcluded p.exclusion nss)
  | .locate => (addSourcePaths p.tree p.cwd p.root p.sources nss).map Prod.fst
  | .complete => .ok (addDefaults p.defaults nss)

def runAll (p : Plan) (nss : List Namespace) (order : List Stage) :
    Except Failure (List Namespace) :=
  order.foldlM p.run nss

variable (p : Plan)

def excluded (ns : Namespace) : Namespace :=
  { ns with publics := ns.publics.filter fun v => !excludes p.exclusion v }

def located (ns : Namespace) : Namespace :=
  ns.located p.tree p.cwd p.root (p.sources.map p.root.join)

def completed (ns : Namespace) : Namespace :=
  { ns.overlay p.defaults with
    publics := Var.mapAll (VarFacts.overlay p.defaults) ns.publics }

def act (nss : List Namespace) : Stage → List Namespace
  | .merge => mergeNamespaces nss
  | .select => selectNamespaces p.patterns nss
  | .exclude => nss.map p.excluded
  | .locate => nss.map p.located
  | .complete => nss.map p.completed

theorem uniform_excluded : Uniform p.excluded where
  name _ := rfl
  append m ns := by simp [excluded]

theorem uniform_located : Uniform p.located where
  name _ := rfl
  append m ns := by simp [located, Namespace.located, Var.mapAll_eq_map]

theorem uniform_completed : Uniform p.completed where
  name _ := rfl
  append m ns := by simp [completed, Namespace.overlay, Var.mapAll_eq_map]

theorem excluded_located (ns : Namespace) :
    p.excluded (p.located ns) = p.located (p.excluded ns) := by
  simp only [excluded, located, Namespace.located]
  rw [Var.filter_mapAll (VarFacts.located_name p.tree p.cwd p.root _)]

theorem excluded_completed (ns : Namespace) :
    p.excluded (p.completed ns) = p.completed (p.excluded ns) := by
  simp only [excluded, completed, Namespace.overlay]
  rw [Var.filter_mapAll (f := VarFacts.overlay p.defaults) fun _ => rfl]

variable {p}

theorem located_completed (h : ∀ e ∈ p.defaults, fieldSpelling e.1 ≠ "file") (ns : Namespace) :
    p.located (p.completed ns) = p.completed (p.located ns) := by
  have hfacts := funext (VarFacts.located_overlay p.tree p.cwd p.root (p.sources.map p.root.join) h)
  simp only [located, completed, Namespace.located, Namespace.overlay, Var.mapAll_mapAll]
  rw [show VarFacts.located p.tree p.cwd p.root (p.sources.map p.root.join) ∘
      VarFacts.overlay p.defaults = VarFacts.overlay p.defaults ∘ _ from hfacts]

theorem map_comm {f g : Namespace → Namespace} (h : ∀ ns, f (g ns) = g (f ns))
    (nss : List Namespace) : (nss.map g).map f = (nss.map f).map g := by
  simp only [List.map_map]
  exact List.map_congr_left fun ns _ => h ns

theorem act_merge_comm (nss : List Namespace) (b : Stage) :
    p.act (p.act nss .merge) b = p.act (p.act nss b) .merge := by
  cases b with
  | merge => rfl
  | select =>
      simp only [act, selectNamespaces_eq]
      exact (mergeNamespaces_filter (selects p.patterns) nss).symm
  | exclude => exact (mergeNamespaces_map p.uniform_excluded nss).symm
  | locate => exact (mergeNamespaces_map p.uniform_located nss).symm
  | complete => exact (mergeNamespaces_map p.uniform_completed nss).symm

theorem act_select_comm (nss : List Namespace) (b : Stage) :
    p.act (p.act nss .select) b = p.act (p.act nss b) .select := by
  cases b with
  | merge => exact (act_merge_comm nss .select).symm
  | select => rfl
  | exclude => exact (selectNamespaces_map p.uniform_excluded p.patterns nss).symm
  | locate => exact (selectNamespaces_map p.uniform_located p.patterns nss).symm
  | complete => exact (selectNamespaces_map p.uniform_completed p.patterns nss).symm

theorem act_comm (h : ∀ e ∈ p.defaults, fieldSpelling e.1 ≠ "file") (nss : List Namespace)
    (a b : Stage) : p.act (p.act nss a) b = p.act (p.act nss b) a := by
  cases a with
  | merge => exact act_merge_comm nss b
  | select => exact act_select_comm nss b
  | exclude =>
      cases b with
      | merge => exact (act_merge_comm nss .exclude).symm
      | select => exact (act_select_comm nss .exclude).symm
      | exclude => rfl
      | locate => exact (map_comm p.excluded_located nss).symm
      | complete => exact (map_comm p.excluded_completed nss).symm
  | locate =>
      cases b with
      | merge => exact (act_merge_comm nss .locate).symm
      | select => exact (act_select_comm nss .locate).symm
      | exclude => exact map_comm p.excluded_located nss
      | locate => rfl
      | complete => exact (map_comm (located_completed h) nss).symm
  | complete =>
      cases b with
      | merge => exact (act_merge_comm nss .complete).symm
      | select => exact (act_select_comm nss .complete).symm
      | exclude => exact map_comm p.excluded_completed nss
      | locate => exact map_comm (located_completed h) nss
      | complete => rfl

theorem foldl_act_of_perm (h : ∀ e ∈ p.defaults, fieldSpelling e.1 ≠ "file")
    {order order' : List Stage} (perm : order.Perm order') (nss : List Namespace) :
    order.foldl p.act nss = order'.foldl p.act nss :=
  perm.foldl_eq' (fun a _ b _ nss => act_comm h nss a b) nss

/-! ## Runs -/

theorem fileNames_of_subset {nss nss' : List Namespace} (h : FileNames nss)
    (hsub : ∀ ns' ∈ nss', ∀ v ∈ ns'.publics, ∃ ns ∈ nss, v ∈ ns.publics) : FileNames nss' := by
  intro ns' hns' v hv
  obtain ⟨ns, hns, hv⟩ := hsub ns' hns' v hv
  exact h ns hns v hv

theorem fileNames_map {nss : List Namespace} (h : FileNames nss) {f : Namespace → Namespace}
    {g : VarFacts → VarFacts} (hpublics : ∀ ns, (f ns).publics = Var.mapAll g ns.publics)
    (hfile : ∀ facts, (g facts).file = facts.file) : FileNames (nss.map f) := by
  intro ns' hns' v' hv' facts' hfacts'
  obtain ⟨ns, hns, rfl⟩ := List.mem_map.1 hns'
  rw [hpublics, Var.mapAll_eq_map] at hv'
  obtain ⟨v, hv, rfl⟩ := List.mem_map.1 hv'
  rw [Var.flatten_map] at hfacts'
  obtain ⟨facts, hfacts, rfl⟩ := List.mem_map.1 hfacts'
  rw [hfile]
  exact h ns hns v hv facts hfacts

theorem fileNames_act (h : ∀ e ∈ p.defaults, fieldSpelling e.1 ≠ "file") {nss : List Namespace}
    (hnss : FileNames nss) (stage : Stage) : FileNames (p.act nss stage) := by
  cases stage with
  | merge =>
      refine fileNames_of_subset hnss fun ns hns v hv => ?_
      rw [act, mergeNamespaces_eq] at hns
      obtain ⟨name, -, rfl⟩ := List.mem_map.1 hns
      obtain ⟨ns, hns, hv⟩ := List.mem_flatMap.1 hv
      exact ⟨ns, (List.mem_filter.1 hns).1, hv⟩
  | select =>
      refine fileNames_of_subset hnss fun ns hns v hv => ?_
      rw [act, selectNamespaces_eq] at hns
      exact ⟨ns, (List.mem_filter.1 hns).1, hv⟩
  | exclude =>
      refine fileNames_of_subset hnss fun ns hns v hv => ?_
      obtain ⟨old, hold, rfl⟩ := List.mem_map.1 hns
      exact ⟨old, hold, (List.mem_filter.1 hv).1⟩
  | locate => exact fileNames_map hnss (fun _ => rfl) (VarFacts.located_file _ _ _ _)
  | complete => exact fileNames_map hnss (fun _ => rfl) fun facts => fill_of_not_named h facts.file

theorem run_eq (nss : List Namespace) (stage : Stage) :
    p.run nss stage = .ok (p.act nss stage) ∨
      (¬FileNames nss ∧ ∃ e, p.run nss stage = .error e) := by
  cases stage with
  | locate =>
      rcases addSourcePaths_eq p.tree p.cwd p.root p.sources nss with ⟨log, h⟩ | ⟨hnot, e, h⟩
      · exact .inl (by rw [run, h]; rfl)
      · exact .inr ⟨hnot, e, by rw [run, h]; rfl⟩
  | _ => exact .inl rfl

theorem runAll_eq (h : ∀ e ∈ p.defaults, fieldSpelling e.1 ≠ "file") (nss : List Namespace)
    (order : List Stage) :
    p.runAll nss order = .ok (order.foldl p.act nss) ∨
      (¬FileNames nss ∧ ∃ e, p.runAll nss order = .error e) := by
  induction order generalizing nss with
  | nil => exact .inl rfl
  | cons stage order ih =>
      rw [runAll, List.foldlM_cons]
      rcases run_eq (p := p) nss stage with hrun | ⟨hnot, e, hrun⟩
      · rw [hrun, List.foldl_cons]
        rcases ih (p.act nss stage) with hrest | ⟨hnot, hrest⟩
        · exact .inl hrest
        · exact .inr ⟨fun hnss => hnot (fileNames_act h hnss stage), hrest⟩
      · rw [hrun]
        exact .inr ⟨hnot, e, rfl⟩

/-- Two orders of the same stages, among them two stages and their exchange, and all five in any
two orders: where both give namespaces, these are the same; and both do if the file of every
variable is a text or null. -/
theorem runAll_of_perm (h : ∀ e ∈ p.defaults, fieldSpelling e.1 ≠ "file")
    {order order' : List Stage} (perm : order.Perm order') (nss : List Namespace) :
    (∀ result result', p.runAll nss order = .ok result → p.runAll nss order' = .ok result' →
        result = result') ∧
      (FileNames nss →
        ∃ result, p.runAll nss order = .ok result ∧ p.runAll nss order' = .ok result) := by
  have hsame := foldl_act_of_perm h perm nss
  rcases runAll_eq h nss order with hrun | ⟨hnot, e, hrun⟩
  · rcases runAll_eq h nss order' with hrun' | ⟨hnot, e, hrun'⟩
    · rw [hrun, hrun', hsame]
      exact ⟨fun _ _ hresult hresult' => Except.ok.inj (hresult.symm.trans hresult'),
        fun _ => ⟨_, rfl, rfl⟩⟩
    · rw [hrun']
      exact ⟨nofun, fun hnss => absurd hnss hnot⟩
  · rw [hrun]
    exact ⟨nofun, fun hnss => absurd hnss hnot⟩

def sample : Plan where
  patterns := some [.exact "n"]
  exclusion := (Regex.compilePosix "b").toOption
  tree := ⟨[(["s"], .directory), (["s", "n.clj"], .file [])]⟩
  cwd := ⟨true, []⟩
  root := ⟨true, []⟩
  sources := [Path.ofText "s"]
  defaults := [(.str "doc", .str "d"), (.str "path", .str "p")]

def sampleRecords : List Namespace :=
  [{ name := some "n",
     publics := [.mk { name := "f", file := .str "n.clj" } [.mk { name := "b" } []],
       .mk { name := "b", file := .str "n.clj" } []] },
   { name := some "m", publics := [.mk { name := "x" } []] },
   { name := some "n", publics := [.mk { name := "g", file := .str "gone.clj" } []] }]

/-- In the order of a run, and backwards: a path that is found wins over the default, and what
is not found takes the default. -/
theorem runAll_sample_reverse :
    ∃ result,
      sample.runAll sampleRecords [.merge, .select, .exclude, .locate, .complete] = .ok result ∧
      sample.runAll sampleRecords [.complete, .locate, .exclude, .select, .merge] = .ok result ∧
      result.flatMap (fun ns => (Var.flattenAll ns.publics).map fun f => (f.name, f.path.text)) =
        [(Text.ofString "f", Text.ofString "s/n.clj"), (Text.ofString "b", Text.ofString "p"),
         (Text.ofString "g", Text.ofString "p")] := by
  have hnamed : ∀ e ∈ sample.defaults, fieldSpelling e.1 ≠ "file" := by decide +kernel
  have hfiles : FileNames sampleRecords := by
    unfold FileNames
    decide
  have hpaths : (sample.runAll sampleRecords
      [.merge, .select, .exclude, .locate, .complete]).toOption.map
        (List.flatMap fun ns => (Var.flattenAll ns.publics).map fun f => (f.name, f.path.text)) =
      some [(Text.ofString "f", Text.ofString "s/n.clj"), (Text.ofString "b", Text.ofString "p"),
        (Text.ofString "g", Text.ofString "p")] := by
    decide +kernel
  obtain ⟨result, hrun, hback⟩ := (runAll_of_perm hnamed
    (List.reverse_perm [.complete, .locate, .exclude, .select, .merge]) sampleRecords).2 hfiles
  refine ⟨result, hrun, hback, ?_⟩
  have hsame : List.reverse [Stage.complete, .locate, .exclude, .select, .merge] =
    [.merge, .select, .exclude, .locate, .complete] := rfl
  rw [← hsame, hrun] at hpaths
  exact Option.some.inj hpaths

end Plan

end Docsmith
