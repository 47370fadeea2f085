import Docsmith.Proofs.Sequencing
import Docsmith.Source.Listing

/-!
# What logging leaves alone

Logging adds to log files and to nothing else.  All paths lead where they led before, and
every file that is not a log file still holds what it held.
-/

namespace Docsmith

namespace Table

variable {κ ν β : Type} [DecidableEq κ]

theorem get?_insert_self (k : κ) (v : ν) (t : Table κ ν) : (insert k v t).get? k = some v := by
  induction t with
  | nil => simp [insert, get?]
  | cons e r ih =>
      by_cases he : e.1 = k
      · simp [insert, get?, he]
      · simpa [insert, get?, he] using ih

theorem get?_insert_of_ne {k l : κ} (h : l ≠ k) (v : ν) (t : Table κ ν) :
    (insert k v t).get? l = t.get? l := by
  induction t with
  | nil => simp [insert, get?, Ne.symm h]
  | cons e r ih =>
      by_cases he : e.1 = k
      · simp [insert, get?, he, Ne.symm h]
      · by_cases hl : e.1 = l
        · simp [insert, get?, hl, h]
        · simpa [insert, get?, he, hl] using ih

/-- What is collected from the entries stays the same if a value is replaced by one that
counts as the old. -/
theorem filterMap_insert {k : κ} {v old : ν} {t : Table κ ν} {g : κ × ν → Option β}
    (hold : t.get? k = some old) (hg : g (k, v) = g (k, old)) :
    (insert k v t).filterMap g = t.filterMap g := by
  induction t with
  | nil => simp [get?] at hold
  | cons e r ih =>
      by_cases he : e.1 = k
      · obtain ⟨key, value⟩ := e
        subst he
        simp only [get?, List.find?_cons, decide_true, Option.map_some, Option.some.injEq] at hold
        subst hold
        simp [insert, List.filterMap_cons, hg]
      · have hrest : Table.get? r k = some old := by simpa [get?, he] using hold
        simp [insert, he, List.filterMap_cons, ih hrest]

end Table

namespace FileTree

theorem entry?_put_self {place : List Text} (h : place ≠ []) (t : FileTree) (e : Entry) :
    entry? (t.put place e) place = some e := by
  simp [h, entry?, put, Table.get?_insert_self]

theorem entry?_put_of_ne {place q : List Text} (h : q ≠ place) (t : FileTree) (e : Entry) :
    entry? (t.put place e) q = t.entry? q := by
  simp [put, entry?, Table.get?_insert_of_ne h]

theorem ne_nil_of_entry?_eq_file {t : FileTree} {place : List Text} {bytes : Bytes}
    (h : t.entry? place = some (.file bytes)) : place ≠ [] := by
  rintro rfl
  cases h

/-! ## Trees that differ in log files -/

/-- The trees differ only in what some files hold. -/
structure AlikeBut (logged : List Text → Prop) (t t' : FileTree) : Prop where
  entry (place : List Text) :
    t'.entry? place = t.entry? place ∨
      (logged place ∧ ∃ bytes bytes', t.entry? place = some (.file bytes) ∧
        t'.entry? place = some (.file bytes'))
  listing (place : List Text) : t'.filesBelow place = t.filesBelow place

variable {logged : List Text → Prop} {t t' t'' : FileTree}

theorem AlikeBut.refl (t : FileTree) : AlikeBut logged t t :=
  ⟨fun _ => .inl rfl, fun _ => rfl⟩

theorem AlikeBut.trans (h : AlikeBut logged t t') (h' : AlikeBut logged t' t'') :
    AlikeBut logged t t'' where
  entry place := by
    rcases h.entry place with heq | ⟨hlogged, bytes, bytes', hfile, hfile'⟩
    · rw [← heq]
      exact h'.entry place
    · rcases h'.entry place with heq | ⟨-, _, last, -, hlast⟩
      · exact .inr ⟨hlogged, bytes, bytes', hfile, heq.trans hfile'⟩
      · exact .inr ⟨hlogged, bytes, last, hfile, hlast⟩
  listing place := (h'.listing place).trans (h.listing place)

theorem alikeBut_append {place : List Text} (h : logged place) (t : FileTree) (bytes : Bytes) :
    AlikeBut logged t (t.append place bytes) := by
  unfold append
  split
  case h_1 old hold =>
    have hne := ne_nil_of_entry?_eq_file hold
    refine ⟨fun q => ?_, fun q => ?_⟩
    · by_cases hq : q = place
      · subst hq
        exact .inr ⟨h, old, old ++ bytes, hold, entry?_put_self hne t _⟩
      · exact .inl (entry?_put_of_ne hq t _)
    · have hget : t.entries.get? place = some (.file old) := by
        simpa [hne, entry?] using hold
      exact Table.filterMap_insert hget rfl
  case h_2 => exact .refl t

namespace AlikeBut

theorem entry?_eq_directory_iff (h : AlikeBut logged t t') (place : List Text) :
    t'.entry? place = some .directory ↔ t.entry? place = some .directory := by
  rcases h.entry place with heq | ⟨-, bytes, bytes', hfile, hfile'⟩
  · rw [heq]
  · simp [hfile, hfile']

theorem isSome_entry? (h : AlikeBut logged t t') (place : List Text) :
    (t'.entry? place).isSome = (t.entry? place).isSome := by
  rcases h.entry place with heq | ⟨-, bytes, bytes', hfile, hfile'⟩
  · rw [heq]
  · simp [hfile, hfile']

theorem walkFrom_eq (h : AlikeBut logged t t') (here names : List Text) :
    t'.walkFrom here names = t.walkFrom here names := by
  induction names generalizing here with
  | nil => rfl
  | cons n names ih =>
      simp only [walkFrom, ne_eq, h.entry?_eq_directory_iff, h.isSome_entry?, ih]

theorem place_eq (h : AlikeBut logged t t') (cwd p : Path) : t'.place cwd p = t.place cwd p :=
  h.walkFrom_eq [] _

theorem isFile_eq (h : AlikeBut logged t t') (cwd p : Path) : t'.isFile cwd p = t.isFile cwd p := by
  simp only [isFile, lookup?, h.place_eq]
  cases t.place cwd p with
  | error stop => rfl
  | ok place =>
      rcases h.entry place with heq | ⟨-, bytes, bytes', hfile, hfile'⟩
      · simp only [heq]
      · simp only [hfile, hfile']

theorem isDirectory_eq (h : AlikeBut logged t t') (cwd p : Path) :
    t'.isDirectory cwd p = t.isDirectory cwd p := by
  simp only [isDirectory, lookup?, h.place_eq]
  cases t.place cwd p with
  | error stop => rfl
  | ok place =>
      rcases h.entry place with heq | ⟨-, bytes, bytes', hfile, hfile'⟩
      · simp only [heq]
      · simp only [hfile, hfile']

theorem filesUnder_eq (h : AlikeBut logged t t') (cwd p : Path) :
    t'.filesUnder cwd p = t.filesUnder cwd p := by
  simp only [filesUnder, visibleFiles, h.place_eq, h.listing]

theorem readText_eq (h : AlikeBut logged t t') {cwd p : Path}
    (hp : ∀ place, t.place cwd p = .ok place → ¬logged place) :
    t'.readText cwd p = t.readText cwd p := by
  have hread : t'.read cwd p = t.read cwd p := by
    simp only [read, h.place_eq]
    cases hplace : t.place cwd p with
    | error stop => rfl
    | ok place =>
        rcases h.entry place with heq | ⟨hlogged, -⟩
        · simp only [heq]
        · exact absurd hlogged (hp place hplace)
  simp only [readText, hread]

end AlikeBut

end FileTree

/-! ## Workspaces -/

namespace Workspace

def LogsTo (w : Workspace) (place : List Text) : Prop :=
  ∃ l, w.logging = some l ∧ ∃ h ∈ l.handlers, h.destination = .file place

/-- The workspaces see the same files, but for what log files hold. -/
structure Alike (w w' : Workspace) : Prop where
  cwd : w'.cwd = w.cwd
  logging : w'.logging = w.logging
  tree : FileTree.AlikeBut w.LogsTo w.tree w'.tree

variable {w w' w'' : Workspace}

theorem Alike.refl (w : Workspace) : Alike w w := ⟨rfl, rfl, .refl _⟩

theorem Alike.logsTo (h : Alike w w') : w'.LogsTo = w.LogsTo := by
  unfold LogsTo
  rw [h.logging]

theorem Alike.trans (h : Alike w w') (h' : Alike w' w'') : Alike w w'' where
  cwd := h'.cwd.trans h.cwd
  logging := h'.logging.trans h.logging
  tree := h.tree.trans (h.logsTo ▸ h'.tree)

theorem alike_emit (r : LogRecord) (w : Workspace) {h : Handler}
    (hh : ∃ l, w.logging = some l ∧ h ∈ l.handlers) : Alike w (w.emit r h) := by
  unfold emit
  split
  case h_1 => exact ⟨rfl, rfl, .refl _⟩
  case h_2 place hplace =>
    obtain ⟨l, hl, hmem⟩ := hh
    split
    · exact ⟨rfl, rfl, FileTree.alikeBut_append ⟨l, hl, h, hmem, hplace⟩ w.tree _⟩
    · exact ⟨rfl, rfl, .refl _⟩

theorem alike_foldl_emit (r : LogRecord) {l : Logging} (handlers : List Handler)
    (hsub : ∀ h ∈ handlers, h ∈ l.handlers) (w : Workspace) (hl : w.logging = some l) :
    Alike w (handlers.foldl (emit r) w) := by
  induction handlers generalizing w with
  | nil => exact .refl w
  | cons h handlers ih =>
      have hfirst := alike_emit r w ⟨l, hl, hsub h List.mem_cons_self⟩
      exact hfirst.trans (ih (fun h' hh' => hsub h' (List.mem_cons_of_mem _ hh')) _
        (hfirst.logging.trans hl))

theorem mem_of_mem_takers {l : Logging} {r : LogRecord} {h : Handler} (hh : h ∈ l.takers r) :
    h ∈ l.handlers := by
  unfold Logging.takers at hh
  split at hh
  · cases hh
  · exact (List.mem_filter.1 hh).1

theorem alike_record (w : Workspace) (r : LogRecord) : Alike w (w.record r) := by
  unfold record
  split
  case h_1 => exact ⟨rfl, rfl, .refl _⟩
  case h_2 l hl => exact alike_foldl_emit r _ (fun _ hh => mem_of_mem_takers hh) w hl

theorem entry?_record {place : List Text} (unlogged : ¬w.LogsTo place) (r : LogRecord) :
    (w.record r).tree.entry? place = w.tree.entry? place :=
  ((alike_record w r).tree.entry place).resolve_right fun h => unlogged h.1

/-- A record changes nothing but files, the log and what the console shows. -/
theorem exists_record_eq (w : Workspace) (r : LogRecord) :
    ∃ tree log console, w.record r = { w with tree := tree, log := log, console := console } := by
  have hemit (w : Workspace) (h : Handler) :
      ∃ tree console, w.emit r h = { w with tree := tree, console := console } := by
    unfold emit
    split
    · exact ⟨_, _, rfl⟩
    · split <;> exact ⟨_, _, rfl⟩
  unfold record
  split
  case h_1 => exact ⟨_, _, _, rfl⟩
  case h_2 l hl =>
    clear hl
    generalize l.takers r = handlers
    induction handlers generalizing w with
    | nil => exact ⟨_, _, _, rfl⟩
    | cons h handlers ih =>
        obtain ⟨tree, console, hfirst⟩ := hemit w h
        obtain ⟨tree', log', console', hrest⟩ := ih (w.emit r h)
        refine ⟨tree', log', console', ?_⟩
        rw [List.foldl_cons, hrest, hfirst]

end Workspace

theorem Logs.alike {w w' : Workspace} {log : List LogRecord} (h : Logs w log w') :
    w.Alike w' := by
  induction h with
  | nil w => exact .refl w
  | record r _ ih => exact (Workspace.alike_record _ r).trans ih
  | @handle w _ _ f path _ ih =>
      have hfirst : w.Alike { w with handled := w.handled ++ [(f, path)] } := ⟨rfl, rfl, .refl _⟩
      exact hfirst.trans ih

end Docsmith
