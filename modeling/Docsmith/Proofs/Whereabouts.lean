import Docsmith.Proofs.Readings
import Docsmith.Proofs.Stages
import Docsmith.Proofs.Ways

/-!
# Where the variables of a run come from

Every variable of a run has the path of a file: the one under the first source path that holds
a file of the name under which the variable was read.  That is the file it was read from,
unless an earlier source path holds another file of that name.
-/

namespace Docsmith

namespace FileTree

/-! ## Source paths that hold a file -/

def Named (t : FileTree) : Prop := ∀ e ∈ t.entries, ∀ n ∈ e.1, Path.IsName n

section

variable (t : FileTree) (cwd : Path) (name : Text)

/-- A source path holds a file of this relative name: a directory has it inside, and a file is
itself the one. -/
inductive HoldsAs (root : Path) : Path → Prop
  | inside (directory : t.isDirectory cwd root = true)
      (file : t.isFile cwd (root.join (Path.ofText name)) = true) :
      HoldsAs root (root.join (Path.ofText name))
  | itself (file : t.isFile cwd root = true) (named : root.name = name) : HoldsAs root root

inductive FirstHolds : List Path → Path → Prop
  | here {root p : Path} (roots : List Path) (holds : t.HoldsAs cwd name root p) :
      FirstHolds (root :: roots) p
  | later {root p : Path} {roots : List Path} (none : ∀ q, ¬t.HoldsAs cwd name root q)
      (rest : FirstHolds roots p) : FirstHolds (root :: roots) p

end

variable {t : FileTree} {cwd : Path} {name : Text}

theorem HoldsAs.isFile {root p : Path} (h : t.HoldsAs cwd name root p) :
    t.isFile cwd p = true := by
  cases h with
  | inside _ file => exact file
  | itself file _ => exact file

theorem isFile_eq_false_of_isDirectory {p : Path} (h : t.isDirectory cwd p = true) :
    t.isFile cwd p = false := by
  obtain ⟨place, hplace, hentry⟩ := isDirectory_iff.1 h
  simp [isFile, lookup?, hplace, hentry]

theorem isDirectory_of_isFile_join {root q : Path} (hq : q.absolute = false)
    (hroot : t.isFile cwd root = false) (h : t.isFile cwd (root.join q) = true) :
    t.isDirectory cwd root = true := by
  obtain ⟨place, bytes, hplace, hentry⟩ := isFile_iff.1 h
  obtain ⟨absolute, names⟩ := q
  obtain rfl : absolute = false := hq
  have hwalk : t.walkFrom [] ((cwd.join root).names ++ names) = .ok place := by
    rw [← Path.names_join_join]
    exact hplace
  rw [walkFrom_append] at hwalk
  obtain ⟨mid, hmid, hrest⟩ := exists_of_bind_eq_ok hwalk
  cases names with
  | nil =>
      cases hrest
      rw [isFile_iff.2 ⟨place, bytes, hmid, hentry⟩] at hroot
      cases hroot
  | cons n names =>
      refine isDirectory_iff.2 ⟨mid, hmid, ?_⟩
      rw [walkFrom] at hrest
      split at hrest
      case isTrue => cases hrest
      case isFalse hdirectory =>
        exact not_not.1 hdirectory

theorem exists_firstHolds {roots : List Path} {root p : Path} (hroot : root ∈ roots)
    (h : t.HoldsAs cwd name root p) : ∃ q, t.FirstHolds cwd name roots q := by
  induction roots with
  | nil => cases hroot
  | cons first roots ih =>
      by_cases hfirst : ∃ q, t.HoldsAs cwd name first q
      · obtain ⟨q, hq⟩ := hfirst
        exact ⟨q, .here roots hq⟩
      · rcases List.mem_cons.1 hroot with rfl | hroot
        · exact absurd ⟨p, h⟩ hfirst
        · obtain ⟨q, hq⟩ := ih hroot
          exact ⟨q, .later (fun q hq => hfirst ⟨q, hq⟩) hq⟩

theorem FirstHolds.of_append {before after : List Path} {root p : Path}
    (hbefore : ∀ r ∈ before, ∀ q, ¬t.HoldsAs cwd name r q) (h : t.HoldsAs cwd name root p) :
    t.FirstHolds cwd name (before ++ root :: after) p := by
  induction before with
  | nil => exact .here after h
  | cons first before ih =>
      exact .later (hbefore first List.mem_cons_self)
        (ih fun r hr => hbefore r (List.mem_cons_of_mem _ hr))

theorem FirstHolds.exists_mem {roots : List Path} {p : Path}
    (h : t.FirstHolds cwd name roots p) : ∃ root ∈ roots, t.HoldsAs cwd name root p := by
  induction h with
  | here roots holds => exact ⟨_, List.mem_cons_self, holds⟩
  | later _ _ ih =>
      obtain ⟨root, hroot, holds⟩ := ih
      exact ⟨root, List.mem_cons_of_mem _ hroot, holds⟩

theorem FirstHolds.findSource_eq {roots : List Path} {p : Path}
    (hname : (Path.ofText name).absolute = false) (h : t.FirstHolds cwd name roots p) :
    t.findSource cwd name roots = some p := by
  induction h with
  | here roots holds =>
      cases holds with
      | inside directory file => simp [findSource, isFile_eq_false_of_isDirectory directory, file]
      | itself file named => simp [findSource, file, named]
  | @later root p roots none _ ih =>
      rw [findSource]
      cases hroot : t.isFile cwd root with
      | true =>
          have hne : root.name ≠ name := fun hname => none root (.itself hroot hname)
          simpa [hne] using ih
      | false =>
          have hcandidate : t.isFile cwd (root.join (Path.ofText name)) = false := by
            rw [Bool.eq_false_iff]
            exact fun hfile =>
              none _ (.inside (isDirectory_of_isFile_join hname hroot hfile) hfile)
          simpa [hcandidate] using ih

theorem FirstHolds.unique {roots : List Path} {p q : Path}
    (hname : (Path.ofText name).absolute = false) (hp : t.FirstHolds cwd name roots p)
    (hq : t.FirstHolds cwd name roots q) : p = q :=
  Option.some.inj ((hp.findSource_eq hname).symm.trans (hq.findSource_eq hname))

theorem AlikeBut.findSource_eq {logged : List Text → Prop} {t' : FileTree}
    (h : AlikeBut logged t t') (roots : List Path) :
    t'.findSource cwd name roots = t.findSource cwd name roots := by
  induction roots with
  | nil => rfl
  | cons root roots ih => simp only [findSource, h.isFile_eq, ih]

theorem isFile_of_readText {p : Path} {text : Text} (h : t.readText cwd p = .ok text) :
    t.isFile cwd p = true := by
  obtain ⟨bytes, hbytes, -⟩ := exists_of_bind_eq_ok h
  have hread := eq_ok_of_mapError_eq_ok hbytes
  unfold read at hread
  split at hread
  · cases hread
  split at hread
  case h_1 => cases hread
  case h_2 place hplace =>
    split at hread
    case h_1 old hentry =>
      exact isFile_iff.2 ⟨place, old, hplace, hentry⟩
    case h_2 => cases hread
    case h_3 => cases hread

/-! ## The names of source files -/

theorem isName_of_entry? (hnamed : t.Named) {place : List Text} {bytes : Bytes}
    (h : t.entry? place = some (.file bytes)) : ∀ n ∈ place, Path.IsName n := by
  unfold entry? Table.get? at h
  split at h
  · cases h
  · obtain ⟨e, he, -⟩ := Option.map_eq_some_iff.1 h
    have hkey : e.1 = place := by simpa using List.find?_some he
    exact hkey ▸ hnamed e (List.mem_of_find?_eq_some he)

theorem isName_name (hnamed : t.Named) {p : Path} (hne : p.name ≠ []) (hpoints : p.name ≠ "..")
    (h : t.isFile cwd p = true) : Path.IsName p.name := by
  obtain ⟨place, bytes, hplace, hentry⟩ := isFile_iff.1 h
  have hnames : p.names ≠ [] := by
    intro hnil
    simp [Path.name, hnil] at hne
  have hlast : p.names = p.names.dropLast ++ [p.name] := by
    rw [Path.name, List.getLast?_eq_some_getLast hnames, Option.getD_some,
      List.dropLast_append_getLast hnames]
  have hchild : p = p.parent.child p.name := congrArg (Path.mk p.absolute) hlast
  have hresolve := Path.names_resolve_child hpoints cwd p.parent
  rw [← hchild, ← eq_resolve_of_place hplace] at hresolve
  refine isName_of_entry? hnamed hentry p.name ?_
  rw [hresolve]
  exact List.mem_append_right _ (List.mem_singleton.2 rfl)

theorem isName_of_mem_filesUnder (hnamed : t.Named) {root : Path} {names : List Text}
    (h : names ∈ t.filesUnder cwd root) : names ≠ [] ∧ ∀ n ∈ names, Path.IsName n := by
  unfold filesUnder at h
  split at h
  case h_1 place hplace =>
    obtain ⟨⟨q, e⟩, he, hbelow⟩ := List.mem_filterMap.1 (List.mem_filter.1 h).1
    cases e with
    | directory => cases hbelow
    | file bytes =>
        simp only [Option.ite_none_right_eq_some, Bool.and_eq_true, decide_eq_true_eq,
          Option.some.injEq] at hbelow
        obtain ⟨⟨-, hlength⟩, rfl⟩ := hbelow
        refine ⟨?_, fun n hn => hnamed _ he n (List.mem_of_mem_drop hn)⟩
        rw [← List.length_pos_iff, List.length_drop]
        omega
  case h_2 => cases h

end FileTree

namespace Dialect

open FileTree

theorem ne_nil_of_isSource {d : Dialect} (hd : d ∈ Dialect.all) {p : Path}
    (h : d.isSource p = true) : p.name ≠ [] ∧ p.name ≠ ".." := by
  have hsuffix : p.suffix ≠ [] := by
    intro hnil
    have hnone : ∀ d ∈ Dialect.all, d.extensions.contains [] = false := by decide
    rw [isSource, hnil, hnone d hd] at h
    cases h
  refine ⟨fun hname => hsuffix ?_, fun hname => hsuffix ?_⟩
  · rw [Path.suffix, hname]
    rfl
  · rw [Path.suffix, hname]
    rfl

theorem holdsAs_of_mem_filesAt {d : Dialect} (hd : d ∈ Dialect.all) {w : Workspace}
    (hnamed : w.tree.Named) {root : Path} {file : SourceFile} (h : file ∈ d.filesAt w root)
    (hfile : w.tree.isFile w.cwd file.path = true) :
    (∃ names, names ≠ [] ∧ (∀ n ∈ names, Path.IsName n) ∧
      file.relativeName = Text.join "/" names) ∧
      w.tree.HoldsAs w.cwd file.relativeName root file.path := by
  unfold filesAt sourceFiles at h
  split at h
  case isTrue hroot =>
    change file ∈ (if d.isSource root = true then _ else _) at h
    split at h
    case isTrue hsource =>
      obtain rfl := List.mem_singleton.1 h
      obtain ⟨hne, hpoints⟩ := ne_nil_of_isSource hd hsource
      have hname := isName_name hnamed hne hpoints hroot
      exact ⟨⟨[root.name], List.cons_ne_nil _ _, List.forall_mem_singleton.2 hname, rfl⟩,
        .itself hroot rfl⟩
    case isFalse => cases h
  split at h
  case isTrue hdirectory =>
    obtain ⟨names, hnames, rfl⟩ := List.mem_map.1 h
    rw [List.mem_mergeSort] at hnames
    obtain ⟨hne, hname⟩ := isName_of_mem_filesUnder hnamed (List.mem_filter.1 hnames).1
    have hpath := Path.ofText_join hne hname
    refine ⟨⟨names, hne, hname, rfl⟩, ?_⟩
    have hinside : w.tree.HoldsAs w.cwd (Text.join "/" names) root
        (root.join (Path.ofText (Text.join "/" names))) := .inside hdirectory (hpath ▸ hfile)
    rwa [hpath] at hinside
  case isFalse => cases h

end Dialect

/-! ## Paths from the project -/

theorem Path.join_assoc (p q r : Path) : (p.join q).join r = p.join (q.join r) := by
  cases hr : r.absolute with
  | true => simp [join, hr]
  | false =>
      cases hq : q.absolute with
      | true => simp [join, hr, hq]
      | false => simp [join, hr, hq]

theorem FileTree.FirstHolds.exists_eq_join {t : FileTree} {cwd p : Path} {name : Text}
    {o : Options} (hname : (Path.ofText name).absolute = false)
    (h : t.FirstHolds cwd name o.sourceRoots p) :
    ∃ q : Path, p = o.root.join q ∧ (∀ n ∈ q.names, Path.IsName n) ∧
      ((∀ s ∈ o.sourcePaths, (Path.ofText s).absolute = false) → q.absolute = false) := by
  obtain ⟨root, hroot, holds⟩ := h.exists_mem
  obtain ⟨s, hs, rfl⟩ := List.mem_map.1 hroot
  cases holds with
  | inside directory file =>
      refine ⟨(Path.ofText s).join (Path.ofText name), Path.join_assoc _ _ _, ?_, fun hall => ?_⟩
      · simp only [Path.join, hname, Bool.false_eq_true, if_false, List.mem_append]
        rintro n (hn | hn)
        · exact Path.isName_of_mem_ofText hn
        · exact Path.isName_of_mem_ofText hn
      · simp [Path.join, hname, hall s hs]
  | itself file named =>
      exact ⟨Path.ofText s, rfl, fun _ => Path.isName_of_mem_ofText, fun hall => hall s hs⟩

namespace Run

open Dialect FileTree

/-- What the path of a variable says.  It leads from the project to the file of the first
source path that holds one of the name under which the variable was read; this is the file it
was read from unless an earlier source path holds one. -/
structure Whereabouts (o : Options) (w : Workspace) (origin : Origin) (path : Text) (p : Path) :
    Prop where
  first : w.tree.FirstHolds w.cwd origin.file.relativeName o.sourceRoots p
  resolve : Path.resolve w.cwd (o.root.join (Path.ofText path)) = Path.resolve w.cwd p
  /-- Through the files of the machine the path leads there as well.  Two points can go up
  only from a directory that exists, so that a project that does not exist may have only source
  paths of its own. -/
  place : w.tree.isDirectory w.cwd o.root = true ∨
      (∀ s ∈ o.sourcePaths, (Path.ofText s).absolute = false) →
    w.tree.place w.cwd (o.root.join (Path.ofText path)) = w.tree.place w.cwd p
  own : (∀ root ∈ origin.before, ∀ q,
      ¬w.tree.HoldsAs w.cwd origin.file.relativeName root q) → p = origin.file.path

variable {o : Options} {w : Workspace}

theorem Genuine.exists_whereabouts (hnamed : w.tree.Named) {reading : Origin × Namespace}
    (h : Genuine o w reading) :
    ∃ path p, Whereabouts o w reading.1 path p ∧
      w.tree.findSource w.cwd reading.1.file.relativeName o.sourceRoots = some p ∧
      path = relativeTo w.cwd o.root p ∧ reading.1.file.relativeName ≠ [] := by
  obtain ⟨⟨after, hroots⟩, d, hd, seen, ns, alike, hfile, hread, -⟩ := h
  generalize reading.1 = origin at hroots hfile hread ⊢
  have hisFile : w.tree.isFile w.cwd origin.file.path = true := by
    unfold readAt namespaceOfText at hread
    split at hread
    case h_1 => cases hread
    case h_2 text htext =>
      rw [← alike.tree.isFile_eq, ← alike.cwd]
      exact isFile_of_readText htext
  obtain ⟨⟨names, hne, hnames, hname⟩, hholds⟩ :=
    holdsAs_of_mem_filesAt hd hnamed hfile hisFile
  have hofText := Path.ofText_join hne hnames
  have hrelative : (Path.ofText origin.file.relativeName).absolute = false := by
    rw [hname, hofText]
    rfl
  have hmem : origin.root ∈ o.sourceRoots := hroots ▸ List.mem_append_right _ List.mem_cons_self
  obtain ⟨p, hfirst⟩ := exists_firstHolds hmem hholds
  obtain ⟨q, rfl, hq, habs⟩ := hfirst.exists_eq_join hrelative
  refine ⟨_, _, ⟨hfirst, resolve_relativeTo hq w.cwd o.root, ?_, fun hbefore => ?_⟩,
    hfirst.findSource_eq hrelative, rfl, ?_⟩
  · rintro (hdirectory | hall)
    · obtain ⟨root, -, hholds⟩ := hfirst.exists_mem
      obtain ⟨place, _, hplace, -⟩ := isFile_iff.1 hholds.isFile
      rw [place_relativeTo hq hdirectory hplace, hplace]
    · rw [join_relativeTo hq (habs hall)]
  · refine hfirst.unique hrelative ?_
    rw [hroots]
    exact .of_append hbefore hholds
  · intro hnil
    have hnone : names = [] := by
      rw [hname] at hnil
      rw [hnil] at hofText
      exact (congrArg Path.names hofText).symm
    exact hne hnone

/-! ## The variables of a run -/

/-- The variables that were read for a name and are not excluded, with their origins. -/
def keptVars (exclusion : Option Regex) (readings : List (Origin × Namespace))
    (name : Option Text) : List (Origin × Var) :=
  ((readings.filter fun r => r.2.name = name).flatMap fun r => r.2.publics.map (r.1, ·)).filter
    fun v => !excludes exclusion v.2

theorem keptVars_map_snd (exclusion : Option Regex) (readings : List (Origin × Namespace))
    (name : Option Text) :
    (keptVars exclusion readings name).map Prod.snd =
      (remaining exclusion (readings.map Prod.snd) name).publics := by
  simp only [keptVars, remaining, varsNamed, List.filter_map, List.flatMap_map, Function.comp_def]
  rw [← Function.comp_def (fun v => !excludes exclusion v) Prod.snd, ← List.filter_map,
    List.map_flatMap]
  simp only [List.map_map, Function.comp_def, List.map_id']

theorem exists_of_mem_keptVars {exclusion : Option Regex} {readings : List (Origin × Namespace)}
    {name : Option Text} {v : Origin × Var} (h : v ∈ keptVars exclusion readings name) :
    ∃ ns, (v.1, ns) ∈ readings ∧ v.2 ∈ ns.publics := by
  obtain ⟨⟨origin, ns⟩, hreading, hv⟩ := List.mem_flatMap.1 (List.mem_filter.1 h).1
  obtain ⟨var, hvar, rfl⟩ := List.mem_map.1 hv
  exact ⟨ns, (List.mem_filter.1 hreading).1, hvar⟩

/-- A variable as it was read and as it is in the end, with its members: all of them have
the path of their file. -/
def Traced (o : Options) (w : Workspace) (read : Origin × Var) (v : Var) : Prop :=
  ∃ path p, Whereabouts o w read.1 path p ∧
    v = read.2.map (fun f => VarFacts.overlay o.metadata { f with path := .str path }) ∧
    ∀ f ∈ v.flatten, f.file = .str read.1.file.relativeName ∧ f.path = .str path

theorem Genuine.traced (hnamed : w.tree.Named) {seen : Workspace} (alike : w.Alike seen)
    {origin : Origin} {ns : Namespace} (h : Genuine o w (origin, ns)) {v : Var}
    (hv : v ∈ ns.publics) :
    Traced o w (origin, v) (v.map (VarFacts.overlay o.metadata ∘
      VarFacts.located seen.tree seen.cwd o.root o.sourceRoots)) := by
  obtain ⟨path, p, hwhere, hfound, hpath, hname⟩ := h.exists_whereabouts hnamed
  have hfile (f : VarFacts) (hf : f ∈ v.flatten) : f.file = .str origin.file.relativeName :=
    (h.made.publics f (Var.mem_flattenAll.2 ⟨v, hv, hf⟩)).file
  have hlocated (f : VarFacts) (hf : f ∈ v.flatten) :
      f.located seen.tree seen.cwd o.root o.sourceRoots = { f with path := .str path } := by
    have htruthy : f.file.truthy = true := by
      rw [hfile f hf]
      simpa [Value.truthy] using hname
    have hsearch : pathOfFile seen.tree seen.cwd o.root o.sourceRoots f.file = some path := by
      rw [hfile f hf, pathOfFile, findSourceValue, alike.tree.findSource_eq, alike.cwd, hfound,
        hpath]
      rfl
    rw [VarFacts.located, if_pos htruthy, hsearch]
    rfl
  refine ⟨path, p, hwhere, ?_, fun f hf => ?_⟩
  · exact Var.map_congr v fun f hf => congrArg _ (hlocated f hf)
  · rw [Var.flatten_map] at hf
    obtain ⟨g, hg, rfl⟩ := List.mem_map.1 hf
    simp [hlocated g hg, VarFacts.overlay, hfile g hg, fill, Value.isNull]

/-- Every variable and member of a run has the path of the file it is found in, whatever was
read before it and in whatever pass. -/
theorem readNamespaces_traces {w' : Workspace} {result : List Namespace} (hnamed : w.tree.Named)
    (h : readNamespaces o w = (.ok result, w')) :
    ∃ readings, ReadsFrom o w readings ∧
      List.Forall₂ (fun name ns => ns.name = name ∧
          List.Forall₂ (Traced o w) (keptVars o.excludeVars readings name) ns.publics)
        (selectedNames o.namespaces (readings.map Prod.snd)) result := by
  obtain ⟨readings, seen, hreads, alike, rfl⟩ := exists_readings_of_readNamespaces h
  refine ⟨readings, hreads, ?_⟩
  rw [addDefaults, List.map_map, List.map_map, List.forall₂_map_right_iff, List.forall₂_same]
  intro name _
  refine ⟨mergedAs_name _ name, ?_⟩
  simp only [Function.comp_apply, Namespace.located]
  rw [Var.mapAll_mapAll, Var.mapAll_eq_map, ← keptVars_map_snd, List.map_map,
    List.forall₂_map_right_iff, List.forall₂_same]
  intro v hv
  obtain ⟨ns, hreading, hvar⟩ := exists_of_mem_keptVars hv
  exact (hreads.genuine _ hreading).traced hnamed alike hvar

/-- Two directories with files of one name, a single file, and a directory elsewhere. -/
def scattered : Workspace :=
  let bytes (t : Text) : Entry := .file (t.map fun c => c.toNat.toUInt8)
  { cwd := ⟨true, ["w"]⟩,
    tree := ⟨[(["w"], .directory), (["w", "a"], .directory),
      (["w", "a", "x.clj"], bytes "(ns x)(def p 1)"), (["w", "b"], .directory),
      (["w", "b", "x.clj"], bytes "(ns x)(def q 1)"),
      (["w", "y.clj"], bytes "(ns y)(defprotocol P (m [v]))"), (["o"], .directory),
      (["o", "z.clj"], bytes "(ns z)(def r 1)")]⟩ }

def scatteredOptions : Options :=
  { root := .relative [], sourcePaths := ["a", "b", "y.clj", "/o"], commit := .known .null }

/-- The second of the two files of one name is taken for the first. -/
theorem readNamespaces_traces_scattered :
    ∃ result w', readNamespaces scatteredOptions scattered = (.ok result, w') ∧
      result.map (fun ns => (Var.flattenAll ns.publics).map fun f => (f.name, f.path.text)) =
        [[(Text.ofString "p", Text.ofString "a/x.clj"), ("q", "a/x.clj")],
          [("P", "y.clj"), ("m", "y.clj")], [("r", "../o/z.clj")]] ∧
      ∃ readings, ReadsFrom scatteredOptions scattered readings ∧
        List.Forall₂ (fun name ns => ns.name = name ∧
            List.Forall₂ (Traced scatteredOptions scattered)
              (keptVars scatteredOptions.excludeVars readings name) ns.publics)
          (selectedNames scatteredOptions.namespaces (readings.map Prod.snd)) result := by
  have hnamed : scattered.tree.Named := by
    unfold Named
    decide +kernel
  have hpaths : (readNamespaces scatteredOptions scattered).1.toOption.map
      (List.map fun ns => (Var.flattenAll ns.publics).map fun f => (f.name, f.path.text)) =
        some [[(Text.ofString "p", Text.ofString "a/x.clj"), ("q", "a/x.clj")],
          [("P", "y.clj"), ("m", "y.clj")], [("r", "../o/z.clj")]] := by decide +kernel
  match h : readNamespaces scatteredOptions scattered with
  | (.error e, w') =>
      rw [h] at hpaths
      cases hpaths
  | (.ok result, w') =>
      rw [h] at hpaths
      exact ⟨result, w', rfl, Option.some.inj hpaths, readNamespaces_traces hnamed h⟩

end Run

end Docsmith
