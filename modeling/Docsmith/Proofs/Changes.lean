import Docsmith.Proofs.Frames
import Docsmith.Run.Generate

/-!
# What actions change

A file is written only where it is written on purpose, and directories are made only where
nothing was.  This is said of an action whether it succeeds or fails, and carried from single
steps to all that a run reads.
-/

namespace Docsmith

/-! ## Paths and places -/

theorem FileTree.eq_of_walkFrom {t : FileTree} {here names place : List Text}
    (h : t.walkFrom here names = .ok place) :
    place = (names.foldl (fun up (n : Text) => if n = ".." then up.drop 1 else n :: up)
      here.reverse).reverse := by
  induction names generalizing here with
  | nil =>
      cases h
      simp
  | cons n names ih =>
      rw [walkFrom] at h
      split at h
      · cases h
      split at h
      case isTrue hup =>
        have hplace := ih h
        rw [List.foldl_cons, if_pos hup, hplace]
        simp [List.tail_reverse]
      case isFalse hname =>
        have hplace := ih h
        rw [List.foldl_cons, if_neg hname, hplace]
        simp

theorem FileTree.eq_resolve_of_place {t : FileTree} {cwd p : Path} {place : List Text}
    (h : t.place cwd p = .ok place) : place = (Path.resolve cwd p).names :=
  eq_of_walkFrom h

namespace FileTree

/-! ## Trees -/

def Holds (t : FileTree) (place : List Text) : Prop :=
  ∃ bytes, t.entry? place = some (.file bytes)

/-- Every place is as it was, or it holds a directory where nothing was, or a file where one
may be written. -/
def Evolves (written : List Text → Prop) (t t' : FileTree) : Prop :=
  ∀ place, t'.entry? place = t.entry? place ∨
    (t.entry? place = none ∧ t'.entry? place = some .directory) ∨
    (written place ∧ t.entry? place ≠ some .directory ∧ t'.Holds place)

variable {written : List Text → Prop} {t t' t'' : FileTree}

theorem Evolves.refl (t : FileTree) : Evolves written t t := fun _ => .inl rfl

theorem Evolves.trans (h : Evolves written t t') (h' : Evolves written t' t'') :
    Evolves written t t'' := by
  intro place
  rcases h place with heq | ⟨hnone, hdirectory⟩ | ⟨hwritten, hnot, bytes, hfile⟩
  · rw [← heq]
    exact h' place
  · rcases h' place with heq | ⟨hnone', -⟩ | ⟨-, hnot, -⟩
    · exact .inr (.inl ⟨hnone, heq.trans hdirectory⟩)
    · rw [hdirectory] at hnone'
      cases hnone'
    · exact absurd hdirectory hnot
  · rcases h' place with heq | ⟨hnone, -⟩ | ⟨-, -, last, hlast⟩
    · exact .inr (.inr ⟨hwritten, hnot, bytes, heq.trans hfile⟩)
    · rw [hfile] at hnone
      cases hnone
    · exact .inr (.inr ⟨hwritten, hnot, last, hlast⟩)

theorem Evolves.mono {written' : List Text → Prop} (h : Evolves written t t')
    (hmono : ∀ place, written place → written' place) : Evolves written' t t' := fun place =>
  (h place).imp_right fun h => h.imp_right fun ⟨hwritten, hrest⟩ => ⟨hmono place hwritten, hrest⟩

theorem Evolves.holds {place : List Text} (h : Evolves written t t') (hfile : t.Holds place) :
    t'.Holds place := by
  obtain ⟨bytes, hbytes⟩ := hfile
  rcases h place with heq | ⟨hnone, -⟩ | ⟨-, -, hfile⟩
  · exact ⟨bytes, heq.trans hbytes⟩
  · rw [hbytes] at hnone
    cases hnone
  · exact hfile

theorem AlikeBut.evolves (h : AlikeBut written t t') : Evolves written t t' := by
  intro place
  rcases h.entry place with heq | ⟨hlogged, bytes, bytes', hfile, hfile'⟩
  · exact .inl heq
  · exact .inr (.inr ⟨hlogged, by simp [hfile], bytes', hfile'⟩)

theorem ne_nil_of_entry?_ne {place : List Text} (h : t.entry? place ≠ some .directory) :
    place ≠ [] := by
  rintro rfl
  exact h rfl

theorem evolves_put_file {place : List Text} (hplace : written place)
    (hnot : t.entry? place ≠ some .directory) (bytes : Bytes) :
    Evolves written t (t.put place (.file bytes)) := by
  intro q
  by_cases hq : q = place
  · subst hq
    exact .inr (.inr ⟨hplace, hnot, bytes, entry?_put_self (ne_nil_of_entry?_ne hnot) t _⟩)
  · exact .inl (entry?_put_of_ne hq t _)

theorem evolves_put_directory {place : List Text} (hnone : t.entry? place = none) :
    Evolves written t (t.put place .directory) := by
  intro q
  by_cases hq : q = place
  · subst hq
    have hne : q ≠ [] := ne_nil_of_entry?_ne (t := t) (by simp [hnone])
    exact .inr (.inl ⟨hnone, entry?_put_self hne t _⟩)
  · exact .inl (entry?_put_of_ne hq t _)

theorem eq_put_of_write {cwd p : Path} {bytes : Bytes} (h : t.write cwd p bytes = .ok t') :
    t.entry? (Path.resolve cwd p).names ≠ some .directory ∧
      t' = t.put (Path.resolve cwd p).names (.file bytes) := by
  unfold write at h
  split at h
  · cases h
  split at h
  case h_1 => cases h
  case h_2 place hwalk =>
    obtain rfl := eq_resolve_of_place hwalk
    split at h
    case h_1 => cases h
    case h_2 old hold =>
      cases h
      exact ⟨by simp [hold], rfl⟩
    case h_3 hnone =>
      cases h
      exact ⟨by simp [hnone], rfl⟩

theorem evolves_of_write {cwd p : Path} {bytes : Bytes}
    (hplace : written (Path.resolve cwd p).names) (h : t.write cwd p bytes = .ok t') :
    Evolves written t t' := by
  obtain ⟨hnot, rfl⟩ := eq_put_of_write h
  exact evolves_put_file hplace hnot bytes

theorem holds_of_write {cwd p : Path} {bytes : Bytes} (h : t.write cwd p bytes = .ok t') :
    t'.Holds (Path.resolve cwd p).names := by
  obtain ⟨hnot, rfl⟩ := eq_put_of_write h
  exact ⟨bytes, entry?_put_self (ne_nil_of_entry?_ne hnot) t _⟩

theorem evolves_of_makeDirectory {cwd p : Path} (h : t.makeDirectory cwd p = .ok t') :
    Evolves written t t' := by
  unfold makeDirectory at h
  split at h
  · cases h
  split at h
  · cases h
  · split at h
    case h_1 => cases h
    case h_2 hnone =>
      cases h
      exact evolves_put_directory hnone

theorem eq_of_settle {cwd p : Path} {fault : FileFault}
    (h : ensureDirectory.settle cwd t p fault = .ok t') : t = t' := by
  unfold ensureDirectory.settle at h
  split at h
  · exact Except.ok.inj h
  · cases h

theorem evolves_of_go {cwd p : Path} {fuel : Nat}
    (h : ensureDirectory.go cwd fuel t p = .ok t') : Evolves written t t' := by
  induction fuel generalizing p t' with
  | zero =>
      unfold ensureDirectory.go at h
      split at h
      case h_1 made hmade =>
        cases h
        exact evolves_of_makeDirectory hmade
      case h_2 => cases h
      case h_3 => exact eq_of_settle h ▸ .refl t
  | succ fuel ih =>
      unfold ensureDirectory.go at h
      split at h
      case h_1 made hmade =>
        cases h
        exact evolves_of_makeDirectory hmade
      case h_2 =>
        obtain ⟨above, habove, h⟩ := exists_of_bind_eq_ok h
        refine (ih habove).trans ?_
        split at h
        case h_1 made hmade =>
          cases h
          exact evolves_of_makeDirectory hmade
        case h_2 => cases h
        case h_3 => exact eq_of_settle h ▸ .refl above
      case h_3 => exact eq_of_settle h ▸ .refl t

end FileTree

/-! ## Workspaces -/

namespace Workspace

structure Changes (written : List Text → Prop) (w w' : Workspace) : Prop where
  cwd : w'.cwd = w.cwd
  logging : w'.logging = w.logging
  tree : FileTree.Evolves (fun place => w.LogsTo place ∨ written place) w.tree w'.tree

variable {written : List Text → Prop} {w w' w'' : Workspace}

theorem Changes.refl (w : Workspace) : Changes written w w := ⟨rfl, rfl, .refl _⟩

theorem Changes.logsTo (h : Changes written w w') : w'.LogsTo = w.LogsTo := by
  unfold LogsTo
  rw [h.logging]

theorem Changes.trans (h : Changes written w w') (h' : Changes written w' w'') :
    Changes written w w'' where
  cwd := h'.cwd.trans h.cwd
  logging := h'.logging.trans h.logging
  tree := h.tree.trans (h.logsTo ▸ h'.tree)

theorem Alike.changes (h : Alike w w') : Changes written w w' :=
  ⟨h.cwd, h.logging, h.tree.evolves.mono fun _ => .inl⟩

end Workspace

/-! ## Actions -/

namespace Action

variable {α β : Type} {cwd : Path} {written : List Text → Prop}

/-- In a directory, the action writes at most where it may, also if it fails. -/
def Confined (cwd : Path) (written : List Text → Prop) (x : Action α) : Prop :=
  ∀ w : Workspace, w.cwd = cwd → w.Changes written (x w).2

theorem changes_bind {x : Action α} {next : α → Action β} {w : Workspace}
    (hx : w.Changes written (x w).2)
    (hnext : ∀ a mid, x w = (.ok a, mid) → mid.cwd = w.cwd →
      mid.Changes written (next a mid).2) :
    w.Changes written ((x >>= next) w).2 := by
  refine related_bind (r := Workspace.Changes written) (fun h h' => h.trans h') hx
    fun a mid h => hnext a mid h ?_
  rw [h] at hx
  exact hx.cwd

theorem confined_bind {x : Action α} {next : α → Action β} (hx : Confined cwd written x)
    (hnext : ∀ a, Confined cwd written (next a)) : Confined cwd written (x >>= next) := by
  intro w hw
  exact changes_bind (hx w hw) fun a mid _ hcwd => hnext a mid (hcwd.trans hw)

theorem confined_of_eq {x : Action α} (h : ∀ w, (x w).2 = w) : Confined cwd written x := by
  intro w _
  rw [h w]
  exact .refl w

theorem confined_pure (a : α) : Confined cwd written (pure a) := confined_of_eq fun _ => rfl

theorem confined_fail (f : Failure) : Confined cwd written (fail f : Action α) :=
  confined_of_eq fun _ => rfl

theorem confined_ofExcept (e : Except Failure α) : Confined cwd written (ofExcept e) :=
  confined_of_eq fun _ => rfl

theorem confined_workspace : Confined cwd written workspace := confined_of_eq fun _ => rfl

theorem confined_tryReadText (p : Path) : Confined cwd written (tryReadText p) :=
  confined_of_eq fun _ => rfl

theorem confined_logAs (part : Text) (level : Level) (message : Text) :
    Confined cwd written (logAs part level message) := fun w _ =>
  (Workspace.alike_record w _).changes

theorem confined_recordAll (log : List LogRecord) : Confined cwd written (recordAll log) :=
  fun w _ => (Logs.all w log).alike.changes

theorem confined_handle (f : Failure) (path : Text) : Confined cwd written (handle f path) :=
  fun _ _ => ⟨rfl, rfl, .refl _⟩

theorem confined_startCommit (given : Commit) : Confined cwd written (startCommit given) :=
  fun _ _ => ⟨rfl, rfl, .refl _⟩

theorem confined_lookUpCommit (given : Commit) : Confined cwd written (lookUpCommit given) :=
  fun _ _ => ⟨rfl, rfl, .refl _⟩

theorem confined_change {f : Path → FileTree → Except FileFault FileTree}
    (h : ∀ t t', f cwd t = .ok t' → FileTree.Evolves written t t') :
    Confined cwd written (change f) := by
  intro w hw
  unfold change
  cases hf : f w.cwd w.tree with
  | error e => exact .refl w
  | ok tree => exact ⟨rfl, rfl, (h w.tree tree (hw ▸ hf)).mono fun _ => .inr⟩

theorem confined_ensureDirectory (p : Path) : Confined cwd written (ensureDirectory p) :=
  confined_change fun _ _ h => FileTree.evolves_of_go h

theorem confined_writeText {p : Path} (hp : written (Path.resolve cwd p).names) (t : Text) :
    Confined cwd written (writeText p t) := by
  refine confined_bind (confined_change fun _ _ h => FileTree.evolves_of_write hp h) fun _ => ?_
  split
  · exact confined_change fun _ _ h => FileTree.evolves_of_write hp h
  · exact confined_fail _

theorem confined_forM {f : α → Action Unit} {as : List α}
    (h : ∀ a ∈ as, Confined cwd written (f a)) : Confined cwd written (as.forM f) := by
  induction as with
  | nil => exact confined_pure _
  | cons a as ih =>
      obtain ⟨ha, has⟩ := List.forall_mem_cons.1 h
      exact confined_bind ha fun _ => ih has

def Leaves (cwd : Path) (place : List Text) (x : Action α) : Prop :=
  ∀ (w : Workspace) (a : α) (w' : Workspace), w.cwd = cwd → x w = (.ok a, w') →
    w'.tree.Holds place

variable {place : List Text}

theorem Confined.cwd_eq {x : Action α} (h : Confined cwd (fun _ => True) x) {w w' : Workspace}
    {a : α} (hw : w.cwd = cwd) (hx : x w = (.ok a, w')) : w'.cwd = cwd := by
  have hcwd := (h w hw).cwd
  rw [hx] at hcwd
  exact hcwd.trans hw

theorem Confined.holds {x : Action α} (h : Confined cwd (fun _ => True) x) {w w' : Workspace}
    {a : α} (hw : w.cwd = cwd) (hx : x w = (.ok a, w')) (hfile : w.tree.Holds place) :
    w'.tree.Holds place := by
  have hholds := (h w hw).tree.holds hfile
  rw [hx] at hholds
  exact hholds

theorem leaves_bind {x : Action α} {next : α → Action β}
    (hx : Confined cwd (fun _ => True) x) (hnext : ∀ a, Leaves cwd place (next a)) :
    Leaves cwd place (x >>= next) := by
  intro w b w' hw h
  obtain ⟨a, mid, ha, hb⟩ := exists_of_bind h
  exact hnext a mid b w' (hx.cwd_eq hw ha) hb

theorem Leaves.bind {x : Action α} {next : α → Action β} (hx : Leaves cwd place x)
    (hcwd : Confined cwd (fun _ => True) x)
    (hnext : ∀ a, Confined cwd (fun _ => True) (next a)) : Leaves cwd place (x >>= next) := by
  intro w b w' hw h
  obtain ⟨a, mid, ha, hb⟩ := exists_of_bind h
  exact (hnext a).holds (hcwd.cwd_eq hw ha) hb (hx w a mid hw ha)

theorem leaves_change {f : Path → FileTree → Except FileFault FileTree}
    (h : ∀ t t', f cwd t = .ok t' → t'.Holds place) : Leaves cwd place (change f) := by
  intro w a w' hw hx
  unfold change at hx
  split at hx
  case h_1 tree hf =>
    cases hx
    exact h w.tree tree (hw ▸ hf)
  case h_2 => cases hx

theorem leaves_writeText (p : Path) (t : Text) :
    Leaves cwd (Path.resolve cwd p).names (writeText p t) := by
  refine leaves_bind (confined_change fun _ _ h => FileTree.evolves_of_write trivial h) fun _ => ?_
  split
  · exact leaves_change fun _ _ h => FileTree.holds_of_write h
  · intro w a w' _ h
    cases h

theorem leaves_forM {f : α → Action Unit} {as : List α} {a : α} (ha : a ∈ as)
    (hf : ∀ a ∈ as, Confined cwd (fun _ => True) (f a)) (hleaves : Leaves cwd place (f a)) :
    Leaves cwd place (as.forM f) := by
  induction as with
  | nil => cases ha
  | cons b as ih =>
      obtain ⟨hb, has⟩ := List.forall_mem_cons.1 hf
      rcases List.mem_cons.1 ha with rfl | ha
      · exact hleaves.bind hb fun _ => confined_forM has
      · exact leaves_bind hb fun _ => ih ha has

end Action

/-! ## Reading -/

open Docsmith.Action

variable {cwd : Path} {written : List Text → Prop}

namespace Dialect

theorem confined_readFile (d : Dialect) (r : Recovery) (file : SourceFile) :
    Confined cwd written (d.readFile r file) := by
  refine confined_bind (confined_tryReadText file.path) fun text => ?_
  split
  · exact confined_pure _
  · exact confined_bind (confined_logAs _ _ _) fun _ => confined_pure _
  · cases r with
    | handOver => exact confined_bind (confined_handle _ _) fun _ => confined_pure _
    | stop => exact confined_fail _
    | misuse => exact confined_fail _
  · exact confined_fail _

theorem confined_readFiles (d : Dialect) (r : Recovery) (files : List SourceFile) :
    Confined cwd written (d.readFiles r files) := by
  induction files with
  | nil => exact confined_pure _
  | cons file files ih =>
      refine confined_bind (confined_readFile d r file) fun _ => ?_
      exact confined_bind ih fun _ => confined_pure _

theorem confined_readRoots (d : Dialect) (r : Recovery) (roots : List Path) :
    Confined cwd written (d.readRoots r roots) := by
  induction roots with
  | nil => exact confined_pure _
  | cons root roots ih =>
      refine confined_bind confined_workspace fun w => ?_
      refine confined_bind (confined_ofExcept _) fun files => ?_
      refine confined_bind (confined_readFiles d r files) fun _ => ?_
      exact confined_bind ih fun _ => confined_pure _

theorem confined_read (d : Dialect) (r : Recovery) (roots : List Path) :
    Confined cwd written (d.read r roots) := by
  refine confined_bind (confined_readRoots d r roots) fun _ => ?_
  exact confined_bind (confined_logAs _ _ _) fun _ => confined_pure _

end Dialect

namespace Document

theorem confined_load (p : Path) (name : Text) : Confined cwd written (load p name) := by
  refine confined_bind (confined_tryReadText p) fun text => ?_
  split
  · exact confined_pure _
  · exact confined_fail _
  · exact confined_fail _

theorem confined_readAll (directory : Path) (names : List (List Text)) :
    Confined cwd written (readAll directory names) := by
  induction names with
  | nil => exact confined_pure _
  | cons name names ih =>
      refine confined_bind (confined_load _ _) fun _ => ?_
      exact confined_bind ih fun _ => confined_pure _

theorem confined_readDirectories (directories : List Path) :
    Confined cwd written (readDirectories directories) := by
  induction directories with
  | nil => exact confined_pure _
  | cons directory directories ih =>
      refine confined_bind confined_workspace fun w => ?_
      refine confined_bind (confined_readAll _ _) fun _ => ?_
      exact confined_bind ih fun _ => confined_pure _

end Document

namespace Run

theorem confined_readSources (o : Options) (d : Dialect) :
    Confined cwd written (readSources o d) := by
  refine confined_bind (Dialect.confined_read d _ _) fun nss => ?_
  split
  · have hmacros : Confined cwd written (Dialect.readMacros (recovery o) o.sourceRoots) :=
      confined_bind (Dialect.confined_read _ _ _) fun _ => confined_pure _
    refine confined_bind hmacros fun _ => ?_
    exact confined_bind (confined_logAs _ _ _) fun _ => confined_pure _
  · exact confined_pure _

theorem confined_readNamespaces (o : Options) : Confined cwd written (readNamespaces o) := by
  refine confined_bind (confined_ofExcept _) fun d => ?_
  refine confined_bind (confined_readSources o d) fun nss => ?_
  refine confined_bind (confined_recordAll _) fun _ => ?_
  refine confined_bind confined_workspace fun w => ?_
  refine confined_bind (confined_ofExcept _) fun found => ?_
  exact confined_bind (confined_recordAll _) fun _ => confined_ofExcept _

theorem confined_readFiles (root : Path) (names : List Text) :
    Confined cwd written (readFiles root names) := by
  induction names with
  | nil => exact confined_pure _
  | cons name names ih =>
      refine confined_bind (Document.confined_load _ _) fun _ => ?_
      exact confined_bind ih fun _ => confined_pure _

theorem confined_readDocuments (o : Options) : Confined cwd written (readDocuments o) := by
  unfold readDocuments
  split
  · exact confined_readFiles o.root _
  · exact confined_bind (Document.confined_readDirectories _) fun _ => confined_pure _

end Run

end Docsmith
