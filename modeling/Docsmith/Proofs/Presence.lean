import Docsmith.Proofs.Confinement
import Docsmith.Proofs.Sections
import Docsmith.Proofs.Whereabouts

/-!
# Which project file decides

Two runs over directories that differ in some project files give the same if these files are
not looked at.  The dependency file and the project definition are looked at only if loading the
configuration file has given nothing, which it may do even though the file is there.
-/

namespace Docsmith

/-! ## What a path shows -/

namespace Path

theorem resolve_resolve (cwd p : Path) : resolve cwd (resolve cwd p) = resolve cwd p := by
  have hnames := collapse_append (points_notMem_collapse (cwd.join p).names) []
  simpa [resolve, join, collapse] using hnames

theorem resolve_child_resolve {n : Text} (h : n ≠ "..") (cwd p : Path) :
    resolve cwd ((resolve cwd p).child n) = (resolve cwd p).child n := by
  have hnames := names_resolve_child h cwd (resolve cwd p)
  rw [resolve_resolve] at hnames
  exact congrArg (Path.mk true) hnames

theorem names_join_resolve (cwd start : Path) (n : Text) :
    (cwd.join ((resolve cwd start).child n)).names = (resolve cwd start).names ++ [n] :=
  rfl

end Path

namespace FileTree

variable {t t' : FileTree} {cwd start p : Path}

structure SameAt (t t' : FileTree) (cwd p : Path) : Prop where
  place : t'.place cwd p = t.place cwd p
  entry (place : List Text) (h : t.place cwd p = .ok place) : t'.entry? place = t.entry? place

theorem SameAt.lookup?_eq (h : SameAt t t' cwd p) : t'.lookup? cwd p = t.lookup? cwd p := by
  rw [lookup?, lookup?, h.place]
  cases hplace : t.place cwd p with
  | error stop => rfl
  | ok place => exact h.entry place hplace

theorem SameAt.exists?_eq (h : SameAt t t' cwd p) : t'.exists? cwd p = t.exists? cwd p := by
  rw [exists?, exists?, h.lookup?_eq]

theorem SameAt.isDirectory_eq (h : SameAt t t' cwd p) :
    t'.isDirectory cwd p = t.isDirectory cwd p := by
  rw [isDirectory, isDirectory, h.lookup?_eq]

theorem SameAt.readText_eq (h : SameAt t t' cwd p) : t'.readText cwd p = t.readText cwd p := by
  have hread : t'.read cwd p = t.read cwd p := by
    rw [read, read, h.place]
    cases hplace : t.place cwd p with
    | error stop => rfl
    | ok place => simp only [h.entry place hplace]
  rw [readText, readText, hread]

theorem walkFrom_eq_of_entries {here names : List Text} (hnames : Text.ofString ".." ∉ names)
    (h : ∀ down, down <+: names → t'.entry? (here ++ down) = t.entry? (here ++ down)) :
    t'.walkFrom here names = t.walkFrom here names := by
  induction names generalizing here with
  | nil => rfl
  | cons n names ih =>
      obtain ⟨hn, hnames⟩ := not_or.1 (mt List.mem_cons.2 hnames)
      have hhere : t'.entry? here = t.entry? here := by simpa using h [] List.nil_prefix
      have hrest : t'.walkFrom (here ++ [n]) names = t.walkFrom (here ++ [n]) names :=
        ih hnames fun down hdown => by
          simpa using h (n :: down) (List.cons_prefix_cons.2 ⟨rfl, hdown⟩)
      simp only [walkFrom, hhere, Ne.symm hn, if_false, hrest]

theorem sameAt_of_entries (hnames : Text.ofString ".." ∉ (cwd.join p).names)
    (h : ∀ q, q <+: (cwd.join p).names → t'.entry? q = t.entry? q) : SameAt t t' cwd p where
  place := walkFrom_eq_of_entries hnames h
  entry place hplace := by
    have hcollapse : Path.collapse (cwd.join p).names = (cwd.join p).names := by
      simpa [Path.collapse] using Path.collapse_append hnames []
    have hwhere : place = (cwd.join p).names := (eq_resolve_of_place hplace).trans hcollapse
    exact h place (hwhere ▸ List.prefix_refl _)

theorem exists?_eq_false_of_entry? (h : t.entry? (Path.resolve cwd p).names = none) :
    t.exists? cwd p = false := by
  unfold exists? lookup?
  cases hplace : t.place cwd p with
  | error stop => rfl
  | ok place =>
      rw [← eq_resolve_of_place hplace] at h
      exact congrArg Option.isSome h

theorem isDirectory_of_exists_child {n : Text}
    (present : t.exists? cwd ((Path.resolve cwd start).child n) = true) :
    t.isDirectory cwd (Path.resolve cwd start) = true := by
  unfold exists? lookup? at present
  rw [FileTree.place, Path.names_join_resolve, walkFrom_append] at present
  cases hhere : t.walkFrom [] (Path.resolve cwd start).names with
  | error stop =>
      rw [hhere] at present
      cases present
  | ok here =>
      refine isDirectory_iff.2 ⟨here, hhere, by_contra fun hnot => ?_⟩
      simp [hhere, walkFrom, hnot, bind, Except.bind] at present

theorem place_child {m n : Text} (hm : m ≠ "..")
    (present : t.exists? cwd ((Path.resolve cwd start).child n) = true) :
    t.place cwd ((Path.resolve cwd start).child m) =
      .ok ((Path.resolve cwd start).names ++ [m]) := by
  obtain ⟨place, hplace, hdirectory⟩ :=
    isDirectory_iff.1 (isDirectory_of_exists_child present)
  obtain rfl : (Path.resolve cwd start).names = place :=
    ((eq_resolve_of_place hplace).trans (by rw [Path.resolve_resolve])).symm
  have hwalk : t.walkFrom [] (Path.resolve cwd start).names =
      .ok (Path.resolve cwd start).names := hplace
  rw [FileTree.place, Path.names_join_resolve, walkFrom_append, hwalk]
  change t.walkFrom (Path.resolve cwd start).names [m] = _
  simp [walkFrom, hdirectory, hm]

theorem entry?_remove {q : List Text} (hq : q ≠ []) (place : List Text) :
    entry? (t.remove q) place = if q <+: place then none else t.entry? place := by
  by_cases hplace : place = []
  · subst hplace
    rw [if_neg (mt List.prefix_nil.1 hq)]
    rfl
  have hfilter : Table.get? (t.remove q).entries place =
      if q <+: place then none else t.entries.get? place := by
    unfold remove Table.get?
    rw [List.find?_filter]
    split
    case isTrue hbelow =>
      rw [List.find?_eq_none.2]
      · rfl
      · intro e _
        simp only [decide_eq_true_eq, not_and]
        rintro habove rfl
        simp [List.isPrefixOf_iff_prefix.2 hbelow] at habove
    case isFalse habove =>
      have hkept : q.isPrefixOf place = false := by
        rw [← Bool.not_eq_true, List.isPrefixOf_iff_prefix]
        exact habove
      congr 2
      funext e
      by_cases he : e.1 = place <;> simp [he, hkept]
  have hempty : place.isEmpty = false := by simpa using hplace
  simp only [hempty, entry?, Bool.false_eq_true, if_false, hfilter]

end FileTree

/-! ## Workspaces that differ in some files -/

namespace Workspace

/-- The workspaces have the same files, but for those with the given names in a directory and
for what is below these names. -/
structure SameBut (w : Workspace) (root : Path) (names : List Text) (w' : Workspace) : Prop where
  cwd : w'.cwd = w.cwd
  homes : w'.homes = w.homes
  entry (place : List Text) (h : ∀ n ∈ names, ¬root.names ++ [n] <+: place) :
    w'.tree.entry? place = w.tree.entry? place

variable {w w' w'' : Workspace} {start : Path} {names : List Text}

theorem SameBut.sameAt_root (h : w.SameBut (Path.resolve w.cwd start) names w') :
    w.tree.SameAt w'.tree w.cwd (Path.resolve w.cwd start) := by
  refine FileTree.sameAt_of_entries (Path.points_notMem_collapse _) fun q hq => ?_
  refine h.entry q fun n _ hn => ?_
  have hlength : ((Path.resolve w.cwd start).names ++ [n]).length ≤
      (Path.resolve w.cwd start).names.length := (hn.trans hq).length_le
  rw [List.length_append] at hlength
  exact Nat.not_succ_le_self _ hlength

theorem SameBut.sameAt_child (h : w.SameBut (Path.resolve w.cwd start) names w') {n : Text}
    (hn : n ∉ names) (hpoints : n ≠ "..") :
    w.tree.SameAt w'.tree w.cwd ((Path.resolve w.cwd start).child n) := by
  have hjoin := Path.names_join_resolve w.cwd start n
  refine FileTree.sameAt_of_entries ?_ fun q hq => h.entry q fun m hm hbelow => ?_
  · rw [hjoin, List.mem_append, List.mem_singleton]
    exact fun hmem => hmem.elim (Path.points_notMem_collapse _) (Ne.symm hpoints)
  · have hsame := (hbelow.trans (hjoin ▸ hq)).eq_of_length (by simp)
    obtain rfl : m = n := by simpa using hsame
    exact hn hm

theorem SameBut.trans {root : Path} (h : w.SameBut root names w')
    (h' : w'.SameBut root names w'') : w.SameBut root names w'' where
  cwd := h'.cwd.trans h.cwd
  homes := h'.homes.trans h.homes
  entry place hplace := (h'.entry place hplace).trans (h.entry place hplace)

theorem sameBut_put (w : Workspace) (root : Path) {n : Text} (hn : n ∈ names) (e : Entry) :
    w.SameBut root names { w with tree := w.tree.put (root.names ++ [n]) e } where
  cwd := rfl
  homes := rfl
  entry place h := by
    refine FileTree.entry?_put_of_ne ?_ _ _
    rintro rfl
    exact h n hn (List.prefix_refl _)

theorem sameBut_remove (w : Workspace) (root : Path) {n : Text} (hn : n ∈ names) :
    w.SameBut root names { w with tree := w.tree.remove (root.names ++ [n]) } where
  cwd := rfl
  homes := rfl
  entry place h := by
    change FileTree.entry? (w.tree.remove _) place = _
    rw [FileTree.entry?_remove (by simp), if_neg (h n hn)]

end Workspace

/-! ## Actions in two workspaces -/

namespace Action

variable {α β : Type} {w w' : Workspace}

def Agrees (w w' : Workspace) (x : Action α) : Prop := (x w').1 = (x w).1

def Blind (x : Action α) : Prop := ∀ w w', Agrees w w' x

theorem blind_pure (a : α) : Blind (pure a) := fun _ _ => rfl

theorem blind_fail (f : Failure) : Blind (fail f : Action α) := fun _ _ => rfl

theorem blind_ofExcept (e : Except Failure α) : Blind (ofExcept e) := fun _ _ => rfl

theorem blind_logAs (part : Text) (level : Level) (message : Text) :
    Blind (logAs part level message) := fun _ _ => rfl

theorem Agrees.bind {x : Action α} {next : α → Action β} (hx : Agrees w w' x)
    (hnext : ∀ a, Blind (next a)) : Agrees w w' (x >>= next) := by
  unfold Agrees at hx ⊢
  rw [bind_apply, bind_apply]
  match h : x w, h' : x w' with
  | (.ok a, mid), (.ok a', mid') =>
      rw [h, h'] at hx
      cases hx
      exact hnext a mid mid'
  | (.error f, mid), (.error f', mid') =>
      rw [h, h'] at hx
      cases hx
      rfl
  | (.ok a, mid), (.error f, mid') =>
      rw [h, h'] at hx
      cases hx
  | (.error f, mid), (.ok a, mid') =>
      rw [h, h'] at hx
      cases hx

theorem Blind.bind {x : Action α} {next : α → Action β} (hx : Blind x)
    (hnext : ∀ a, Blind (next a)) : Blind (x >>= next) := fun w w' => (hx w w').bind hnext

theorem Still.agrees_bind {x : Action α} {next : α → Action β} (still : Still x)
    (hx : Agrees w w' x) (hnext : ∀ a, (x w).1 = .ok a → Agrees w w' (next a)) :
    Agrees w w' (x >>= next) := by
  unfold Agrees at hx hnext ⊢
  rw [bind_apply, bind_apply, still.eq w, still.eq w', hx]
  cases h : (x w).1 with
  | error f => rfl
  | ok a => exact hnext a h

end Action

open Docsmith.Action

/-! ## Loading -/

namespace ProjectFile

variable {w w' : Workspace} {p : Path}

theorem agrees_forms (h : w'.tree.readText w'.cwd p = w.tree.readText w.cwd p) :
    Agrees w w' (forms p) := by
  rw [Agrees, forms_fst, forms_fst, h]

theorem blind_valueOf (p : Path) (f : Form) : Blind (valueOf p f) := by
  unfold valueOf
  split
  · exact blind_pure _
  all_goals exact blind_fail _

theorem blind_sections (p : Path) (data : Value) (paths : List Value) (merged : Dict) :
    Blind (sections p data paths merged) := by
  induction paths generalizing merged with
  | nil => exact blind_pure _
  | cons keyPath rest ih =>
      refine (blind_ofExcept _).bind fun keys => ?_
      refine (blind_ofExcept _).bind fun found => ?_
      split
      · exact ih _
      · exact (blind_logAs _ _ _).bind fun _ => ih _

theorem agrees_dependencyOptions (h : w'.tree.readText w'.cwd p = w.tree.readText w.cwd p)
    (argPaths : Value) : Agrees w w' (dependencyOptions p argPaths) := by
  refine (agrees_forms h).bind fun fs => ?_
  split
  · refine (blind_valueOf _ _).bind fun data => ?_
    have hrest (paths : List Value) : Blind (sections p data paths [] >>= fun merged =>
        Action.ofExcept (OptionTable.ofValue (.dict merged))) :=
      (blind_sections _ _ _ _).bind fun _ => blind_ofExcept _
    dsimp only
    split
    · exact (blind_ofExcept _).bind hrest
    · exact (blind_pure _).bind hrest
  · exact blind_fail _

end ProjectFile

variable {w w' : Workspace} {start : Path} {names : List Text} {base : Value}

theorem still_resolvedPath (p : Path) : Still (resolvedPath p) := fun _ => rfl

theorem resolve_configFile (w : Workspace) (start : Path) :
    Path.resolve w.cwd (configFile w (Path.resolve w.cwd start)) =
      configFile w (Path.resolve w.cwd start) := by
  unfold configFile
  split
  · exact Path.resolve_child_resolve (by decide) w.cwd start
  · exact Path.resolve_resolve w.cwd start

theorem agrees_loadConfig (h : w.SameBut (Path.resolve w.cwd start) names w')
    (hconfig : configName ∉ names) : Agrees w w' (loadConfig (Path.resolve w.cwd start)) := by
  have hroot := h.sameAt_root
  have hat : w.tree.SameAt w'.tree w.cwd (configFile w (Path.resolve w.cwd start)) := by
    unfold configFile
    split
    · exact h.sameAt_child hconfig (by decide)
    · exact hroot
  have hfile : configFile w' (Path.resolve w.cwd start) =
      configFile w (Path.resolve w.cwd start) := by
    rw [configFile, configFile, h.cwd, hroot.isDirectory_eq]
  have plain := Path.user?_resolve w.cwd start
  have hpath : Agrees w w' (configPath (Path.resolve w.cwd start)) := by
    rw [Agrees, configPath_fst plain, configPath_fst plain, hfile, h.cwd]
  refine (still_configPath _).agrees_bind hpath fun file hgiven => ?_
  obtain rfl : configFile w (Path.resolve w.cwd start) = file := by
    rw [← resolve_configFile]
    rw [configPath_fst plain] at hgiven
    exact eq_resolve_of_resolve? hgiven
  refine (still_fileExists _).agrees_bind ?_ fun found _ => ?_
  · change Except.ok _ = Except.ok _
    rw [h.cwd, hat.exists?_eq]
  cases found with
  | false => exact blind_pure _ w w'
  | true =>
      have hread : Agrees w w' (readText (configFile w (Path.resolve w.cwd start))) := by
        change Except.mapError _ _ = Except.mapError _ _
        rw [h.cwd, hat.readText_eq]
      refine hread.bind fun text => ?_
      refine (blind_ofExcept _).bind fun v => ?_
      cases v with
      | dict d => exact blind_ofExcept _
      | _ => exact blind_fail _

theorem agrees_projectSection_of_config (h : w.SameBut (Path.resolve w.cwd start) names w')
    (hconfig : configName ∉ names)
    (full : (loadConfig (Path.resolve w.cwd start) w).1 ≠ .ok []) (argPaths : Value) :
    Agrees w w' (projectSection (Path.resolve w.cwd start) argPaths) := by
  refine (still_loadConfig _).agrees_bind (agrees_loadConfig h hconfig) fun config hgiven => ?_
  cases config with
  | nil => exact absurd hgiven full
  | cons e config => exact blind_pure _ w w'

theorem agrees_projectSection_of_dependencies
    (h : w.SameBut (Path.resolve w.cwd start) names w') (hconfig : configName ∉ names)
    (hnames : Text.ofString "deps.edn" ∉ names)
    (present : w.tree.exists? w.cwd ((Path.resolve w.cwd start).child "deps.edn") = true)
    (argPaths : Value) : Agrees w w' (projectSection (Path.resolve w.cwd start) argPaths) := by
  have hat := h.sameAt_child hnames (by decide)
  refine (still_loadConfig _).agrees_bind (agrees_loadConfig h hconfig) fun config _ => ?_
  cases config with
  | cons e config => exact blind_pure _ w w'
  | nil =>
      refine (still_fileExists _).agrees_bind ?_ fun found hgiven => ?_
      · change Except.ok _ = Except.ok _
        rw [h.cwd, hat.exists?_eq]
      obtain rfl : true = found := present.symm.trans (Except.ok.inj hgiven)
      refine (ProjectFile.agrees_dependencyOptions ?_ argPaths).bind fun _ => blind_pure _
      rw [h.cwd, hat.readText_eq]

theorem agrees_loadProjectOptions (hcwd : w'.cwd = w.cwd) (hhomes : w'.homes = w.homes)
    (h : ∀ dir given argPaths, fullPath w.homes w.cwd start = .ok dir →
      OptionTable.ofValue base = .ok given → Agrees w w' (projectSection dir argPaths)) :
    Agrees w w' (loadProjectOptions start base) := by
  have hroot : Agrees w w' (resolvedPath start) := by
    change fullPath w'.homes w'.cwd start = fullPath w.homes w.cwd start
    rw [hcwd, hhomes]
  refine (still_resolvedPath start).agrees_bind hroot fun dir located => ?_
  refine (still_ofExcept _).agrees_bind rfl fun given accepted => ?_
  refine (h dir given _ located accepted).bind fun section_ => ?_
  dsimp only
  split
  · exact (blind_logAs _ _ _).bind fun _ => blind_pure _
  · exact blind_pure _

/-! ## Configurations that say nothing -/

/-- A text that says nothing as a configuration: a blank one, a null, or an empty mapping. -/
def SaysNothing (text : Text) : Prop :=
  text.strip.isEmpty = true ∨ Yaml.parse text = .ok .null ∨ Yaml.parse text = .ok (.dict [])

/-- The configuration file of a directory can be read, and says nothing. -/
structure SilentConfig (w : Workspace) (directory : Path) : Prop where
  named : (directory.child configName).fault? = none
  silent : ∃ text, w.tree.readText w.cwd (directory.child configName) = .ok text ∧
    SaysNothing text

theorem configValue_eq_empty_iff (file : Path) (text : Text) :
    configValue file text = .ok (.dict []) ↔ SaysNothing text := by
  unfold configValue SaysNothing
  cases hblank : text.strip.isEmpty with
  | true => simp
  | false =>
      simp only [Bool.false_eq_true, if_false, false_or]
      split
      all_goals simp_all

theorem Table.insert_ne_nil {κ ν : Type} [DecidableEq κ] (k : κ) (v : ν) (t : Table κ ν) :
    insert k v t ≠ [] := by
  cases t with
  | nil => exact List.cons_ne_nil _ _
  | cons e t =>
      rw [insert]
      split <;> exact List.cons_ne_nil _ _

theorem OptionTable.normalize_eq_nil_iff {d : Dict} : normalize d = [] ↔ d = [] := by
  refine ⟨fun h => ?_, fun h => h ▸ rfl⟩
  rcases List.eq_nil_or_concat d with hd | ⟨d, e, rfl⟩
  · exact hd
  · rw [normalize, List.concat_eq_append, List.foldl_append] at h
    exact absurd h (Table.insert_ne_nil _ _ _)

theorem OptionTable.ofValue_eq_nil_iff {d : Dict} : ofValue (.dict d) = .ok [] ↔ d = [] := by
  unfold ofValue
  dsimp only
  split
  case isTrue => rw [Except.ok.injEq, normalize_eq_nil_iff]
  case isFalse hlong =>
    refine iff_of_false (by simp) ?_
    rintro rfl
    exact hlong rfl

theorem readConfig_eq_nil_iff (w : Workspace) (file : Path) :
    ((do
      match ← Action.ofExcept (configValue file (← Action.readText file)) with
      | .dict d => Action.ofExcept (OptionTable.ofValue (.dict d))
      | _ => Action.fail (.config .rootNotMapping)) w).1 = .ok [] ↔
      ∃ text, w.tree.readText w.cwd file = .ok text ∧ SaysNothing text := by
  cases hread : w.tree.readText w.cwd file with
  | error e =>
      have hfails : Action.readText file w = (.error (.ofText e), w) :=
        congrArg (Except.mapError Failure.ofText ·, w) hread
      rw [bind_apply, hfails]
      simp
  | ok text =>
      have hgives : Action.readText file w = (.ok text, w) :=
        congrArg (Except.mapError Failure.ofText ·, w) hread
      rw [bind_of_ok hgives]
      simp only [Except.ok.injEq, exists_eq_left']
      rw [← configValue_eq_empty_iff file text, bind_apply]
      cases hvalue : configValue file text with
      | error f => simp [Action.ofExcept]
      | ok v =>
          cases v with
          | dict d => simpa [Action.ofExcept] using OptionTable.ofValue_eq_nil_iff
          | _ => simp [Action.ofExcept, Action.fail]

theorem loadConfig_eq_nil_iff
    (present : w.tree.exists? w.cwd ((Path.resolve w.cwd start).child configName) = true) :
    (loadConfig (Path.resolve w.cwd start) w).1 = .ok [] ↔
      SilentConfig w (Path.resolve w.cwd start) := by
  have hfile : configFile w (Path.resolve w.cwd start) =
      (Path.resolve w.cwd start).child configName :=
    if_pos (FileTree.isDirectory_of_exists_child present)
  have hgiven := configPath_fst (Path.user?_resolve w.cwd start) w
  rw [hfile, Path.resolve?, Path.resolve_child_resolve (by decide)] at hgiven
  rw [loadConfig]
  cases hfault : ((Path.resolve w.cwd start).child configName).fault? with
  | some fault =>
      rw [hfault] at hgiven
      refine iff_of_false ?_ fun h => by simpa [hfault] using h.named
      rw [bind_apply, (still_configPath _).eq w, hgiven]
      simp [Except.mapError]
  | none =>
      rw [hfault] at hgiven
      have hpath : configPath (Path.resolve w.cwd start) w =
          (.ok ((Path.resolve w.cwd start).child configName), w) :=
        Prod.ext hgiven (still_configPath _ w)
      have hfound : fileExists ((Path.resolve w.cwd start).child configName) w = (.ok true, w) :=
        congrArg (Except.ok ·, w) present
      rw [bind_of_ok hpath, bind_of_ok hfound, if_neg (by simp)]
      exact (readConfig_eq_nil_iff w _).trans ⟨fun h => ⟨hfault, h⟩, SilentConfig.silent⟩

/-! ## When the other files decide -/

/-- The options are loaded if those in the project files are, once the path of the project and
the given options have been accepted. -/
theorem exists_options_iff {dir : Path} {given : OptionTable}
    (located : fullPath w.homes w.cwd start = .ok dir)
    (accepted : OptionTable.ofValue base = .ok given) :
    (∃ t, (loadProjectOptions start base w).1 = .ok t) ↔
      ∃ found, (projectSection dir ((given.get? "arg_paths").getD .null) w).1 = .ok found := by
  have hroot : resolvedPath start w = (.ok dir, w) := congrArg (·, w) located
  have hgiven : Action.ofExcept (OptionTable.ofValue base) w = (.ok given, w) :=
    congrArg (·, w) accepted
  rw [loadProjectOptions, bind_of_ok hroot, bind_of_ok hgiven, bind_apply]
  rcases projectSection dir ((given.get? "arg_paths").getD .null) w with
    ⟨f | ⟨source, found⟩, mid⟩
  · simp
  · cases source <;> exact iff_of_true ⟨_, rfl⟩ ⟨_, rfl⟩

/-- Where the configuration says nothing, a dependency file that is a directory is an error. -/
theorem not_exists_section_of_directory
    (silent : (loadConfig (Path.resolve w.cwd start) w).1 = .ok [])
    (present : w.tree.exists? w.cwd ((Path.resolve w.cwd start).child configName) = true)
    (blocked : w.tree.entry? ((Path.resolve w.cwd start).names ++ [Text.ofString "deps.edn"]) =
      some .directory) (argPaths : Value) :
    ¬∃ found, (projectSection (Path.resolve w.cwd start) argPaths w).1 = .ok found := by
  have hplace := FileTree.place_child (m := "deps.edn") (by decide) present
  have hexists : w.tree.exists? w.cwd ((Path.resolve w.cwd start).child "deps.edn") = true := by
    rw [FileTree.exists?, FileTree.lookup?, hplace]
    exact congrArg Option.isSome blocked
  have hfound : fileExists ((Path.resolve w.cwd start).child "deps.edn") w = (.ok true, w) :=
    congrArg (Except.ok ·, w) hexists
  rintro ⟨found, h⟩
  have hsection : projectSection (Path.resolve w.cwd start) argPaths w = (.ok found, _) :=
    Prod.ext h rfl
  rw [projectSection, bind_of_ok ((still_loadConfig _).eq w |>.trans (by rw [silent])),
    if_neg (by simp), bind_of_ok hfound, if_pos rfl] at hsection
  obtain ⟨options, mid, hoptions, -⟩ := exists_of_bind hsection
  obtain ⟨fs, mid, hforms, -⟩ := exists_of_bind hoptions
  obtain ⟨text, hread, -⟩ := ProjectFile.forms_eq_ok_iff.1 (congrArg Prod.fst hforms)
  obtain ⟨place, bytes, hplace', hentry⟩ :=
    FileTree.isFile_iff.1 (FileTree.isFile_of_readText hread)
  rw [hplace] at hplace'
  cases hplace'
  rw [blocked] at hentry
  cases hentry

theorem exists_section_of_none
    (silent : (loadConfig (Path.resolve w.cwd start) w).1 = .ok [])
    (undeclared : w.tree.exists? w.cwd ((Path.resolve w.cwd start).child "deps.edn") = false)
    (undefined : w.tree.exists? w.cwd ((Path.resolve w.cwd start).child "project.clj") = false)
    (argPaths : Value) :
    ∃ found, (projectSection (Path.resolve w.cwd start) argPaths w).1 = .ok found := by
  have hdependencies : fileExists ((Path.resolve w.cwd start).child "deps.edn") w =
      (.ok false, w) := congrArg (Except.ok ·, w) undeclared
  have hdefinition : fileExists ((Path.resolve w.cwd start).child "project.clj") w =
      (.ok false, w) := congrArg (Except.ok ·, w) undefined
  refine ⟨(none, []), ?_⟩
  rw [projectSection, bind_of_ok ((still_loadConfig _).eq w |>.trans (by rw [silent])),
    if_neg (by simp), bind_of_ok hdependencies, if_neg (by simp), bind_of_ok hdefinition,
    if_neg (by simp)]
  rfl

theorem exists_not_agrees {dir : Path} {given : OptionTable} (silent : SilentConfig w dir)
    (present : w.tree.exists? w.cwd (dir.child configName) = true)
    (located : fullPath w.homes w.cwd start = .ok dir)
    (accepted : OptionTable.ofValue base = .ok given)
    (hconfig : configName ∉ names) (hdependencies : Text.ofString "deps.edn" ∈ names)
    (hdefinition : Text.ofString "project.clj" ∈ names) :
    ∃ w', w.SameBut dir names w' ∧ ¬Agrees w w' (loadProjectOptions start base) := by
  by_contra hnone
  have hagrees (w' : Workspace) (h : w.SameBut dir names w') :
      (loadProjectOptions start base w').1 = (loadProjectOptions start base w).1 :=
    by_contra fun hnot => hnone ⟨w', h, hnot⟩
  have hlocated (w' : Workspace) (h : w.SameBut dir names w') :
      fullPath w'.homes w'.cwd start = .ok dir := by
    rw [h.homes, h.cwd, located]
  obtain ⟨home, -, rfl⟩ := exists_resolve_of_fullPath located
  have hempty := (loadConfig_eq_nil_iff present).2 silent
  have hblocked := w.sameBut_put (Path.resolve w.cwd home) hdependencies .directory
  have hcleared := (w.sameBut_remove (Path.resolve w.cwd home) hdependencies).trans
    (Workspace.sameBut_remove _ _ hdefinition)
  refine not_exists_section_of_directory ((agrees_loadConfig hblocked hconfig).trans hempty)
    ((hblocked.sameAt_child hconfig (by decide)).exists?_eq.trans present)
    (FileTree.entry?_put_self (by simp) _ _) ((given.get? "arg_paths").getD .null) ?_
  rw [← exists_options_iff (hlocated _ hblocked) accepted, hagrees _ hblocked,
    ← hagrees _ hcleared, exists_options_iff (hlocated _ hcleared) accepted]
  refine exists_section_of_none ((agrees_loadConfig hcleared hconfig).trans hempty) ?_ ?_ _
  all_goals
    refine FileTree.exists?_eq_false_of_entry? ?_
    dsimp only
    rw [Path.resolve_child_resolve (by decide)]
    change FileTree.entry? _ ((Path.resolve w.cwd home).names ++ [_]) = none
    simp [FileTree.entry?_remove]

/-- While a configuration file is in the directory of a project, the dependency file and the
project definition make no difference, just unless the configuration says nothing where options
could be loaded.  Where it is not there but a dependency file is, the project definition makes
none.  A path that leads to no directory is a failure whatever files there are. -/
theorem loadProjectOptions_decided (w : Workspace) (start : Path) (base : Value) :
    (∀ dir, fullPath w.homes w.cwd start = .ok dir →
      (w.tree.exists? w.cwd (dir.child configName) = true →
        ((∀ w', w.SameBut dir ["deps.edn", "project.clj"] w' →
            (loadProjectOptions start base w').1 = (loadProjectOptions start base w).1) ↔
          ¬(SilentConfig w dir ∧ ∃ given, OptionTable.ofValue base = .ok given))) ∧
      (w.tree.exists? w.cwd (dir.child configName) = false →
        w.tree.exists? w.cwd (dir.child "deps.edn") = true →
        ∀ w', w.SameBut dir ["project.clj"] w' →
          (loadProjectOptions start base w').1 = (loadProjectOptions start base w).1)) ∧
    ∀ f, fullPath w.homes w.cwd start = .error f →
      ∀ w', w'.cwd = w.cwd → w'.homes = w.homes →
        (loadProjectOptions start base w').1 = .error f := by
  constructor
  · intro dir located
    obtain ⟨home, -, rfl⟩ := exists_resolve_of_fullPath located
    refine ⟨fun present => ⟨?_, ?_⟩, ?_⟩
    · rintro hall ⟨silent, given, accepted⟩
      suffices h : ∃ w', w.SameBut (Path.resolve w.cwd home) ["deps.edn", "project.clj"] w' ∧
          ¬Agrees w w' (loadProjectOptions start base) by
        obtain ⟨w', hsame, hnot⟩ := h
        exact hnot (hall w' hsame)
      exact exists_not_agrees silent present located accepted (by decide) (by decide) (by decide)
    · intro hnot w' hsame
      refine agrees_loadProjectOptions hsame.cwd hsame.homes
        fun dir given argPaths located' accepted => ?_
      obtain rfl := Except.ok.inj (located.symm.trans located')
      refine agrees_projectSection_of_config hsame (by decide) ?_ argPaths
      exact fun hempty => hnot ⟨(loadConfig_eq_nil_iff present).1 hempty, given, accepted⟩
    · intro _ present w' hsame
      refine agrees_loadProjectOptions hsame.cwd hsame.homes
        fun dir given argPaths located' _ => ?_
      obtain rfl := Except.ok.inj (located.symm.trans located')
      exact agrees_projectSection_of_dependencies hsame (by decide) (by decide) present argPaths
  · intro f nowhere w' hcwd hhomes
    have hroot : resolvedPath start w' = (.error f, w') := by
      refine congrArg (·, w') ?_
      rw [hcwd, hhomes, nowhere]
    rw [loadProjectOptions, bind_apply, hroot]

def soleFile (name text : Text) : Workspace :=
  { cwd := ⟨true, ["p"]⟩,
    tree := ⟨[(["p"], .directory),
      (["p", name], .file (text.map fun c => c.toNat.toUInt8))]⟩ }

def loadedTexts (w : Workspace) : Option (List (Text × Text)) :=
  (loadProjectOptions (Path.ofText ".") .null w).1.toOption.map (List.map fun e => (e.1, e.2.text))

/-- The result is that of the first file, whatever the files behind it are. -/
theorem loadProjectOptions_decided_sole :
    (∀ w',
      (soleFile configName "name: a").SameBut ⟨true, ["p"]⟩ ["deps.edn", "project.clj"] w' →
      loadedTexts w' = some [(Text.ofString "name", Text.ofString "a"), ("root_path", "/p")]) ∧
    ∀ w', (soleFile "deps.edn" "\x7b\x7d").SameBut ⟨true, ["p"]⟩ ["project.clj"] w' →
      loadedTexts w' = some [(Text.ofString "root_path", Text.ofString "/p")] := by
  obtain ⟨hconfig, -⟩ :=
    (loadProjectOptions_decided (soleFile configName "name: a") (Path.ofText ".") .null).1
      ⟨true, ["p"]⟩ (by decide)
  obtain ⟨-, hdependencies⟩ :=
    (loadProjectOptions_decided (soleFile "deps.edn" "\x7b\x7d") (Path.ofText ".") .null).1
      ⟨true, ["p"]⟩ (by decide)
  have hspeaks : ¬SilentConfig (soleFile configName "name: a") ⟨true, ["p"]⟩ := by
    intro hsilent
    have hempty := (@loadConfig_eq_nil_iff (soleFile configName "name: a") (Path.ofText ".")
      (by decide +kernel)).2 hsilent
    have hlength : (loadConfig ⟨true, ["p"]⟩ (soleFile configName "name: a")).1.toOption.map
        List.length = some 1 := by decide +kernel
    rw [show (loadConfig ⟨true, ["p"]⟩ (soleFile configName "name: a")).1 = .ok [] from hempty]
      at hlength
    cases hlength
  refine ⟨fun w' h => ?_, fun w' h => ?_⟩
  · rw [loadedTexts, (hconfig (by decide +kernel)).2 (fun hsilent => hspeaks hsilent.1) w' h]
    decide +kernel
  · rw [loadedTexts, hdependencies (by decide +kernel) (by decide +kernel) w' h]
    decide +kernel

/-- Beside a blank configuration file the project definition is read all the same. -/
theorem blank_config_undecided :
    (soleFile configName []).tree.exists? ⟨true, ["p"]⟩ (Path.ofText "/p/.codox.yml") = true ∧
      ∃ w', (soleFile configName []).SameBut ⟨true, ["p"]⟩ ["deps.edn", "project.clj"] w' ∧
        loadedTexts (soleFile configName []) =
          some [(Text.ofString "root_path", Text.ofString "/p")] ∧
        loadedTexts w' = some [(Text.ofString "name", Text.ofString "w"), ("version", "1.0"),
          ("description", ""), ("root_path", "/p")] := by
  let definition : Text := "(defproject w \"1.0\")"
  have hlast : Text.ofString "project.clj" ∈ [Text.ofString "deps.edn", "project.clj"] := by
    decide
  refine ⟨by decide +kernel, _, Workspace.sameBut_put _ _ hlast
    (.file (definition.map fun c => c.toNat.toUInt8)), ?_, ?_⟩
  · decide +kernel
  · decide +kernel

end Docsmith
