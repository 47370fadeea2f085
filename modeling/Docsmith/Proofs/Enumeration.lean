import Docsmith.Proofs.Order
import Docsmith.Proofs.Recovery
import Docsmith.Proofs.Whereabouts

/-!
# A pass reads the sources in order

The sources under a root are the files with one of the suffixes that lie in no hidden directory.
They are read in the order of their relative names, each once, and what becomes of the pass is
decided by what reading them gives.  So it is not seen in which order the directories list their
entries.
-/

namespace Docsmith

/-! ## Files below a directory -/

namespace Table

variable {κ ν : Type} [DecidableEq κ]

theorem get?_eq_some_iff {t : Table κ ν} (nodup : (t.map Prod.fst).Nodup) {k : κ} {v : ν} :
    t.get? k = some v ↔ (k, v) ∈ t := by
  induction t with
  | nil => simp [get?]
  | cons e t ih =>
      obtain ⟨key, value⟩ := e
      obtain ⟨hfirst, nodup⟩ := List.nodup_cons.1 nodup
      have hkey (h : (key, v) ∈ t) : False := hfirst (List.mem_map.2 ⟨_, h, rfl⟩)
      rw [get?, List.find?_cons]
      by_cases hk : key = k
      · subst hk
        simp only [decide_true, Option.map_some, Option.some.injEq, List.mem_cons, Prod.mk.injEq,
          true_and]
        constructor
        · exact fun h => .inl h.symm
        · exact fun h => h.elim Eq.symm fun h => (hkey h).elim
      · rw [decide_eq_false hk, ← get?, ih nodup]
        simp [Ne.symm hk]

end Table

namespace FileTree

/-- As file systems are: names have no slash, and each place is listed once. -/
structure Proper (t : FileTree) : Prop where
  named : t.Named
  distinct : (t.entries.map Prod.fst).Nodup

variable {t t' : FileTree} {cwd : Path}

theorem Proper.entry?_eq_file_iff (proper : t.Proper) {place : List Text} (hne : place ≠ [])
    {bytes : Bytes} :
    t.entry? place = some (.file bytes) ↔ (place, Entry.file bytes) ∈ t.entries := by
  unfold entry?
  rw [if_neg (by simpa using hne), Table.get?_eq_some_iff proper.distinct]

theorem filterMap_file_eq_some_iff {place q names : List Text} {e : Entry} :
    (match (q, e) with
      | (q, .file _) => if place.isPrefixOf q && place.length < q.length then
          some (q.drop place.length) else none
      | (_, .directory) => none) = some names ↔
      (∃ bytes, e = .file bytes) ∧ names ≠ [] ∧ q = place ++ names := by
  cases e with
  | directory => simp
  | file bytes =>
      simp only [Option.ite_none_right_eq_some, Bool.and_eq_true, List.isPrefixOf_iff_prefix,
        decide_eq_true_eq, Option.some.injEq]
      constructor
      · rintro ⟨⟨⟨names, rfl⟩, hlength⟩, rfl⟩
        rw [List.length_append] at hlength
        rw [List.drop_left]
        exact ⟨⟨bytes, rfl⟩, List.ne_nil_of_length_pos (by omega), rfl⟩
      · rintro ⟨-, hne, rfl⟩
        have hlength := List.length_pos_of_ne_nil hne
        simp only [List.prefix_append, List.length_append, List.drop_left, true_and, and_true]
        omega

theorem Proper.mem_filesBelow_iff (proper : t.Proper) {place names : List Text} :
    names ∈ t.filesBelow place ↔
      names ≠ [] ∧ ∃ bytes, t.entry? (place ++ names) = some (.file bytes) := by
  rw [filesBelow, List.mem_filterMap]
  constructor
  · rintro ⟨⟨q, e⟩, he, hnames⟩
    obtain ⟨⟨bytes, rfl⟩, hne, rfl⟩ := filterMap_file_eq_some_iff.1 hnames
    exact ⟨hne, bytes, (proper.entry?_eq_file_iff (by simp [hne])).2 he⟩
  · rintro ⟨hne, bytes, hentry⟩
    have he := (proper.entry?_eq_file_iff (by simp [hne])).1 hentry
    exact ⟨_, he, filterMap_file_eq_some_iff.2 ⟨⟨bytes, rfl⟩, hne, rfl⟩⟩

theorem Proper.nodup_filesBelow (proper : t.Proper) (place : List Text) :
    (t.filesBelow place).Nodup := by
  apply List.pairwise_filterMap.2
  have hdistinct : t.entries.Pairwise fun e e' => e.1 ≠ e'.1 := List.pairwise_map.1 proper.distinct
  refine hdistinct.imp fun {e e'} hne names hnames names' hnames' heq => hne ?_
  obtain ⟨-, -, hq⟩ := filterMap_file_eq_some_iff.1 hnames
  obtain ⟨-, -, hq'⟩ := filterMap_file_eq_some_iff.1 hnames'
  rw [hq, hq', heq]

theorem Proper.nodup_relativeNames (proper : t.Proper) (place : List Text) :
    ((t.filesBelow place).map (Text.join "/")).Nodup := by
  have hnames : ∀ names ∈ t.filesBelow place, names ≠ [] ∧ ∀ n ∈ names, Path.IsName n := by
    intro names h
    obtain ⟨hne, bytes, hentry⟩ := proper.mem_filesBelow_iff.1 h
    have hall := isName_of_entry? proper.named hentry
    exact ⟨hne, fun n hn => hall n (List.mem_append_right _ hn)⟩
  refine List.Nodup.map_on ?_ (proper.nodup_filesBelow place)
  intro names h names' h' heq
  obtain ⟨hne, hall⟩ := hnames names h
  obtain ⟨hne', hall'⟩ := hnames names' h'
  have hpaths := Path.ofText_join hne hall
  rw [heq, Path.ofText_join hne' hall'] at hpaths
  exact (congrArg Path.names hpaths).symm

end FileTree

namespace Dialect

open FileTree

variable {d : Dialect} {w : Workspace}

/-- The sources of a root: the root itself, or the files below it that have one of the suffixes
and lie in no hidden directory. -/
structure Lists (d : Dialect) (w : Workspace) (root : Path) (files : List SourceFile) : Prop where
  sorted : files.Pairwise fun a b =>
    Text.le a.relativeName b.relativeName = true ∧ a.relativeName ≠ b.relativeName
  file : w.tree.isFile w.cwd root = true →
    ∀ f, f ∈ files ↔ root.suffix ∈ d.extensions ∧ f = ⟨root, root.name⟩
  directory : ∀ place, w.tree.place w.cwd root = .ok place →
    w.tree.entry? place = some .directory →
    ∀ f, f ∈ files ↔ ∃ names bytes, names ≠ [] ∧
      w.tree.entry? (place ++ names) = some (.file bytes) ∧
      (∀ n ∈ names.dropLast, isHidden n = false) ∧
      (Path.relative names).suffix ∈ d.extensions ∧
      f = ⟨root.join (Path.relative names), Text.join "/" names⟩

theorem filesAt_of_isFile {root : Path} (h : w.tree.isFile w.cwd root = true) :
    d.filesAt w root = if d.isSource root then [⟨root, root.name⟩] else [] := by
  rw [filesAt, sourceFiles, if_pos h]
  rfl

def sourceNames (d : Dialect) (t : FileTree) (place : List Text) : List (List Text) :=
  (t.visibleFiles place).filter fun names => d.isSource (Path.relative names)

theorem filesAt_of_isDirectory {root : Path} {place : List Text}
    (hplace : w.tree.place w.cwd root = .ok place)
    (hentry : w.tree.entry? place = some .directory) :
    d.filesAt w root = ((d.sourceNames w.tree place).mergeSort pathTextLe).map fun names =>
      ⟨root.join (Path.relative names), Text.join "/" names⟩ := by
  have hdirectory : w.tree.isDirectory w.cwd root = true := isDirectory_iff.2 ⟨_, hplace, hentry⟩
  have hfile := isFile_eq_false_of_isDirectory hdirectory
  rw [filesAt, sourceFiles, hfile, if_neg Bool.false_ne_true, if_pos hdirectory, filesUnder, hplace]
  rfl

theorem mem_sourceNames_iff (proper : w.tree.Proper) {place names : List Text} :
    names ∈ d.sourceNames w.tree place ↔
      (names ≠ [] ∧ ∃ bytes, w.tree.entry? (place ++ names) = some (.file bytes)) ∧
        (∀ n ∈ names.dropLast, isHidden n = false) ∧
        (Path.relative names).suffix ∈ d.extensions := by
  rw [sourceNames, visibleFiles, List.mem_filter, List.mem_filter, proper.mem_filesBelow_iff]
  simp [isSource, and_assoc]

theorem sourceNames_sublist (d : Dialect) (t : FileTree) (place : List Text) :
    (d.sourceNames t place).Sublist (t.filesBelow place) :=
  List.filter_sublist.trans List.filter_sublist

theorem pairwise_mergeSort_pathTextLe {names : List (List Text)}
    (nodup : (names.map (Text.join "/")).Nodup) :
    (names.mergeSort pathTextLe).Pairwise fun a b =>
      pathTextLe a b = true ∧ Text.join "/" a ≠ Text.join "/" b := by
  have hnodup := nodup.perm ((List.mergeSort_perm names pathTextLe).map (Text.join "/")).symm
  exact (pairwise_mergeSort_by (Text.join "/") names).and (List.pairwise_map.1 hnodup)

theorem lists_filesAt (proper : w.tree.Proper) {root : Path}
    (existing : w.tree.isFile w.cwd root = true ∨ w.tree.isDirectory w.cwd root = true) :
    d.Lists w root (d.filesAt w root) := by
  constructor
  case sorted =>
    rcases existing with hfile | hdirectory
    · rw [filesAt_of_isFile hfile]
      split
      · exact List.pairwise_singleton _ _
      · exact .nil
    · obtain ⟨place, hplace, hentry⟩ := isDirectory_iff.1 hdirectory
      have hnodup := (proper.nodup_relativeNames place).sublist
        ((d.sourceNames_sublist w.tree place).map (Text.join "/"))
      rw [filesAt_of_isDirectory hplace hentry]
      exact List.pairwise_map.2 (pairwise_mergeSort_pathTextLe hnodup)
  case file =>
    intro hfile f
    rw [filesAt_of_isFile hfile]
    by_cases hsource : d.isSource root = true
    · simp [hsource, show root.suffix ∈ d.extensions by simpa [isSource] using hsource]
    · simp [hsource, show root.suffix ∉ d.extensions by simpa [isSource] using hsource]
  case directory =>
    intro place hplace hentry f
    rw [filesAt_of_isDirectory hplace hentry]
    simp only [List.mem_map, List.mem_mergeSort, mem_sourceNames_iff proper]
    constructor
    · rintro ⟨names, ⟨⟨hne, bytes, hbytes⟩, hhidden, hsuffix⟩, rfl⟩
      exact ⟨names, bytes, hne, hbytes, hhidden, hsuffix, rfl⟩
    · rintro ⟨names, bytes, hne, hbytes, hhidden, hsuffix, rfl⟩
      exact ⟨names, ⟨⟨hne, bytes, hbytes⟩, hhidden, hsuffix⟩, rfl⟩

end Dialect

/-! ## What becomes of a pass -/

abbrev Reading := Dialect.SourceFile × Except Failure (Option Namespace)

namespace Reading

def ends? (r : Recovery) : Reading → Option Failure
  | (_, .ok _) => none
  | (_, .error (.source path reason)) =>
      match r with
      | .handOver => none
      | .stop => some (.source path reason)
      | .misuse => some .wrongKind
  | (_, .error e) => some e

def handed? : Reading → Option (Failure × Text)
  | (file, .error (.source path reason)) => some (.source path reason, file.path.text)
  | _ => none

def found? (reading : Reading) : Option Namespace := reading.2.toOption.join

end Reading

/-- The result of a pass: the first failure that ends it, or what was found. -/
def Recovery.verdict (r : Recovery) (readings : List Reading) : Except Failure (List Namespace) :=
  match readings.findSome? (Reading.ends? r) with
  | some f => .error f
  | none => .ok (readings.filterMap Reading.found?)

theorem Recovery.verdict_append (r : Recovery) (readings more : List Reading) :
    r.verdict (readings ++ more) = do
      let nss ← r.verdict readings
      let rest ← r.verdict more
      return nss ++ rest := by
  simp only [verdict, List.findSome?_append, List.filterMap_append]
  cases readings.findSome? (Reading.ends? r) with
  | some f => rfl
  | none => cases more.findSome? (Reading.ends? r) <;> rfl

namespace Dialect

variable {d : Dialect} {w : Workspace}

/-- Reading the file may give this during a pass, while log files grow. -/
def ReadsAs (d : Dialect) (w : Workspace) (reading : Reading) : Prop :=
  ∃ seen, w.Alike seen ∧ d.readAt seen reading.1 = reading.2

theorem readsAs_readAt (file : SourceFile) : d.ReadsAs w (file, d.readAt w file) :=
  ⟨w, .refl w, rfl⟩

theorem ReadsAs.eq_readAt {reading : Reading} (h : d.ReadsAs w reading)
    (unlogged : ∀ place, w.tree.place w.cwd reading.1.path = .ok place → ¬w.LogsTo place) :
    reading.2 = d.readAt w reading.1 := by
  obtain ⟨seen, alike, hread⟩ := h
  rw [← hread, readAt, readAt, alike.cwd, alike.tree.readText_eq unlogged]

theorem eq_map_of_readsAs {readings : List Reading}
    (hreads : ∀ reading ∈ readings, d.ReadsAs w reading) (unlogged : ∀ place, ¬w.LogsTo place) :
    readings = (readings.map Prod.fst).map fun file => (file, d.readAt w file) := by
  induction readings with
  | nil => rfl
  | cons reading readings ih =>
      obtain ⟨hfirst, hrest⟩ := List.forall_mem_cons.1 hreads
      have hread := hfirst.eq_readAt fun place _ => unlogged place
      rw [List.map_cons, List.map_cons, ← ih hrest, ← hread]

def Settles (d : Dialect) (w : Workspace) (r : Recovery) (files : List SourceFile)
    (x : Action (List Namespace)) : Prop :=
  ∀ w', w.Alike w' → ∃ readings : List Reading, readings.map Prod.fst = files ∧
    (∀ reading ∈ readings, d.ReadsAs w reading) ∧
    ∃ last, x w' = (r.verdict readings, last) ∧
      ∀ nss, r.verdict readings = .ok nss →
        w.Alike last ∧ last.handled = w'.handled ++ readings.filterMap Reading.handed?

theorem settles_nil (r : Recovery) : d.Settles w r [] (pure []) := fun w' alike =>
  ⟨[], rfl, nofun, w', rfl, fun _ _ => ⟨alike, (List.append_nil _).symm⟩⟩

theorem Settles.append {r : Recovery} {files more : List SourceFile}
    {x y : Action (List Namespace)} (hx : d.Settles w r files x) (hy : d.Settles w r more y) :
    d.Settles w r (files ++ more) (x >>= fun nss => y >>= fun rest => pure (nss ++ rest)) := by
  intro w' alike
  obtain ⟨readings, rfl, hreads, mid, hmid, hlast⟩ := hx w' alike
  match hverdict : r.verdict readings with
  | .error f =>
      refine ⟨readings ++ more.map fun file => (file, d.readAt w file), ?_, ?_, mid, ?_, ?_⟩
      · simp [Function.comp_def]
      · intro reading h
        rcases List.mem_append.1 h with h | h
        · exact hreads reading h
        · obtain ⟨file, -, rfl⟩ := List.mem_map.1 h
          exact readsAs_readAt file
      · rw [Action.bind_apply, hmid, hverdict, Recovery.verdict_append, hverdict]
        rfl
      · intro nss h
        rw [Recovery.verdict_append, hverdict] at h
        cases h
  | .ok nss =>
      obtain ⟨alike', hhandled⟩ := hlast nss hverdict
      obtain ⟨others, rfl, hothers, last, hrest, hlast⟩ := hy mid alike'
      rw [hverdict] at hmid
      refine ⟨readings ++ others, List.map_append, ?_, last, ?_, ?_⟩
      · exact List.forall_mem_append.2 ⟨hreads, hothers⟩
      · rw [Action.bind_of_ok hmid, Action.bind_apply, hrest, Recovery.verdict_append, hverdict]
        cases r.verdict others <;> rfl
      · intro all h
        rw [Recovery.verdict_append, hverdict] at h
        obtain ⟨_, -, h⟩ := exists_of_bind_eq_ok h
        obtain ⟨rest, hverdict', -⟩ := exists_of_bind_eq_ok h
        obtain ⟨alike'', hmore⟩ := hlast rest hverdict'
        exact ⟨alike'', by rw [hmore, hhandled, List.filterMap_append, List.append_assoc]⟩

theorem settles_readFile (r : Recovery) (file : SourceFile) :
    d.Settles w r [file] (d.readFile r file) := by
  intro w' alike
  refine ⟨[(file, d.readAt w' file)], rfl, ?_, ?_⟩
  · rintro _ (_ | ⟨_, ⟨⟩⟩)
    exact ⟨w', alike, rfl⟩
  have htext : Action.tryReadText file.path w' =
      (.ok (w'.tree.readText w'.cwd file.path), w') := rfl
  have hread : d.namespaceOfText file (w'.tree.readText w'.cwd file.path) = d.readAt w' file := rfl
  rw [readFile, Action.bind_of_ok htext, hread]
  match d.readAt w' file with
  | .ok (some ns) => exact ⟨w', rfl, fun _ _ => ⟨alike, (List.append_nil _).symm⟩⟩
  | .ok none =>
      obtain ⟨last, hlast, alike', hhandled⟩ := Action.handsOver_logAs d.logger .debug
        ("Skipping " ++ file.path.text ++ ": no ns form") w' alike
      exact ⟨last, Action.bind_of_ok hlast, fun _ _ => ⟨alike', hhandled⟩⟩
  | .error f =>
      cases f with
      | source path reason =>
          cases r with
          | handOver =>
              obtain ⟨last, hlast, alike', hhandled⟩ :=
                Action.handsOver_handle (.source path reason) file.path.text w' alike
              exact ⟨last, Action.bind_of_ok hlast, fun _ _ => ⟨alike', hhandled⟩⟩
          | stop => exact ⟨w', rfl, nofun⟩
          | misuse => exact ⟨w', rfl, nofun⟩
      | _ => exact ⟨w', rfl, nofun⟩

theorem settles_readFiles (r : Recovery) (files : List SourceFile) :
    d.Settles w r files (d.readFiles r files) := by
  induction files with
  | nil => exact settles_nil r
  | cons file files ih => exact (settles_readFile r file).append ih

theorem settles_readRoots (r : Recovery) {roots : List Path}
    (existing : ∀ root ∈ roots,
      w.tree.isFile w.cwd root = true ∨ w.tree.isDirectory w.cwd root = true) :
    d.Settles w r (roots.flatMap (d.filesAt w)) (d.readRoots r roots) := by
  induction roots with
  | nil => exact settles_nil r
  | cons root roots ih =>
      obtain ⟨hroot, hroots⟩ := List.forall_mem_cons.1 existing
      have hboth := (settles_readFiles (d := d) (w := w) r (d.filesAt w root)).append (ih hroots)
      intro w' alike
      obtain ⟨mid, hmid, alike', hhandled⟩ := handsOver_sources (d := d) hroot w' alike
      rw [readRoots_cons, Action.bind_of_ok hmid, List.flatMap_cons]
      rw [List.append_nil] at hhandled
      rw [← hhandled]
      exact hboth mid alike'

theorem settles_read (r : Recovery) {roots : List Path}
    (existing : ∀ root ∈ roots,
      w.tree.isFile w.cwd root = true ∨ w.tree.isDirectory w.cwd root = true) :
    d.Settles w r (roots.flatMap (d.filesAt w)) (d.read r roots) := by
  intro w' alike
  obtain ⟨readings, hfiles, hreads, mid, hmid, hlast⟩ := settles_readRoots r existing w' alike
  match hverdict : r.verdict readings with
  | .error f =>
      refine ⟨readings, hfiles, hreads, mid, ?_, hverdict ▸ nofun⟩
      rw [read, Action.bind_apply, hmid, hverdict]
  | .ok nss =>
      obtain ⟨alike', hhandled⟩ := hlast nss hverdict
      rw [hverdict] at hmid
      obtain ⟨last, hlog, alike'', hsame⟩ := Action.handsOver_logAs d.logger .debug
        ("Read " ++ Text.ofNat nss.length ++ " namespaces from " ++ Text.ofNat roots.length
          ++ " source paths") mid alike'
      refine ⟨readings, hfiles, hreads, last, ?_, fun _ _ => ⟨alike'', ?_⟩⟩
      · rw [read, Action.bind_of_ok hmid, Action.bind_of_ok hlog, hverdict]
        rfl
      · rw [hsame, List.append_nil, hhandled]

end Dialect

/-! ## Listings in another order -/

namespace FileTree

structure Relists (t t' : FileTree) : Prop where
  entry (place : List Text) : t'.entry? place = t.entry? place
  listing (place : List Text) : (t'.filesBelow place).Perm (t.filesBelow place)
  distinct (place : List Text) : ((t.filesBelow place).map (Text.join "/")).Nodup

variable {t t' : FileTree}

theorem Proper.relists (proper : t.Proper) (perm : t'.entries.Perm t.entries) : t.Relists t' where
  entry place := by
    have distinct' : (t'.entries.map Prod.fst).Nodup :=
      proper.distinct.perm (perm.map Prod.fst).symm
    have hget : t'.entries.get? place = t.entries.get? place := by
      apply Option.ext
      intro e
      rw [Table.get?_eq_some_iff proper.distinct, Table.get?_eq_some_iff distinct', perm.mem_iff]
    unfold entry?
    rw [hget]
  listing place := perm.filterMap _
  distinct := proper.nodup_relativeNames

namespace Relists

theorem walkFrom_eq (h : t.Relists t') (here names : List Text) :
    t'.walkFrom here names = t.walkFrom here names := by
  induction names generalizing here with
  | nil => rfl
  | cons n names ih => simp only [walkFrom, h.entry, ih]

theorem lookup?_eq (h : t.Relists t') (cwd p : Path) : t'.lookup? cwd p = t.lookup? cwd p := by
  simp only [lookup?, place, h.walkFrom_eq, h.entry]

theorem readText_eq (h : t.Relists t') (cwd p : Path) : t'.readText cwd p = t.readText cwd p := by
  simp only [readText, read, place, h.walkFrom_eq, h.entry]

theorem append (h : t.Relists t') (place : List Text) (bytes : Bytes) :
    (t.append place bytes).Relists (t'.append place bytes) := by
  have hlisting (t : FileTree) (q : List Text) :
      (t.append place bytes).filesBelow q = t.filesBelow q := by
    have halike : AlikeBut (fun _ => True) t (t.append place bytes) :=
      alikeBut_append trivial t bytes
    exact halike.listing q
  constructor
  case entry =>
    intro q
    rw [FileTree.append, FileTree.append, h.entry]
    split
    case h_1 old hold =>
      have hne := ne_nil_of_entry?_eq_file hold
      by_cases hq : q = place
      · rw [hq, entry?_put_self hne, entry?_put_self hne]
      · rw [entry?_put_of_ne hq, entry?_put_of_ne hq, h.entry]
    case h_2 => exact h.entry q
  case listing =>
    intro q
    rw [hlisting, hlisting]
    exact h.listing q
  case distinct =>
    intro q
    rw [hlisting]
    exact h.distinct q

end Relists

end FileTree

def Workspace.Relists (w w' : Workspace) : Prop :=
  ∃ tree, w' = { w with tree := tree } ∧ w.tree.Relists tree

theorem Workspace.Relists.emit {w w' : Workspace} (h : w.Relists w') (r : LogRecord)
    (handler : Handler) : (w.emit r handler).Relists (w'.emit r handler) := by
  obtain ⟨tree, rfl, h⟩ := h
  unfold Workspace.emit
  split
  · exact ⟨tree, rfl, h⟩
  · dsimp only
    split
    · exact ⟨_, rfl, h.append _ _⟩
    · exact ⟨tree, rfl, h⟩

theorem Workspace.Relists.record {w w' : Workspace} (h : w.Relists w') (r : LogRecord) :
    (w.record r).Relists (w'.record r) := by
  have hfold (handlers : List Handler) {w w' : Workspace} (h : w.Relists w') :
      (handlers.foldl (Workspace.emit r) w).Relists (handlers.foldl (Workspace.emit r) w') := by
    induction handlers generalizing w w' with
    | nil => exact h
    | cons handler handlers ih => exact ih (h.emit r handler)
  have hlogging : w'.logging = w.logging := by
    obtain ⟨tree, rfl, -⟩ := h
    rfl
  unfold Workspace.record
  rw [hlogging]
  split
  · obtain ⟨tree, rfl, h⟩ := h
    exact ⟨tree, rfl, h⟩
  · exact hfold _ h

namespace Action

variable {α β : Type}

def Steady (x : Action α) : Prop :=
  ∀ w w' : Workspace, w.Relists w' → (x w').1 = (x w).1 ∧ (x w).2.Relists (x w').2

theorem steady_pure (a : α) : Steady (pure a) := fun _ _ h => ⟨rfl, h⟩

theorem steady_fail (f : Failure) : Steady (α := α) (fail f) := fun _ _ h => ⟨rfl, h⟩

theorem Steady.bind {x : Action α} {next : α → Action β} (hx : Steady x)
    (hnext : ∀ a, Steady (next a)) : Steady (x >>= next) := by
  intro w w' h
  obtain ⟨hresult, hlast⟩ := hx w w' h
  rw [bind_apply, bind_apply]
  rcases hw : x w with ⟨_ | a, mid⟩
  all_goals
    rcases hw' : x w' with ⟨_ | a', mid'⟩
    all_goals
      rw [hw, hw'] at hresult hlast
      cases hresult
  · exact ⟨rfl, hlast⟩
  · exact hnext a mid mid' hlast

theorem steady_logAs (part : Text) (level : Level) (message : Text) :
    Steady (logAs part level message) := fun _ _ h => ⟨rfl, h.record _⟩

theorem steady_handle (f : Failure) (path : Text) : Steady (handle f path) := by
  rintro w _ ⟨tree, rfl, h⟩
  exact ⟨rfl, tree, rfl, h⟩

theorem steady_tryReadText (p : Path) : Steady (tryReadText p) := by
  rintro w _ ⟨tree, rfl, h⟩
  constructor
  · simp only [tryReadText, h.readText_eq]
  · exact ⟨tree, rfl, h⟩

end Action

namespace Dialect

variable {d : Dialect} {w : Workspace}

theorem sourceNames_mergeSort_of_relists {t t' : FileTree} (h : t.Relists t') (place : List Text) :
    (d.sourceNames t' place).mergeSort pathTextLe =
      (d.sourceNames t place).mergeSort pathTextLe := by
  apply mergeSort_of_perm
  · exact ((h.listing place).symm.filter _).filter _
  · exact (h.distinct place).sublist ((d.sourceNames_sublist t place).map _)

theorem sourceFiles_of_relists {t t' : FileTree} (h : t.Relists t') (cwd root : Path) :
    d.sourceFiles t' cwd root = d.sourceFiles t cwd root := by
  have hplace : t'.place cwd root = t.place cwd root := h.walkFrom_eq _ _
  have hfile : t'.isFile cwd root = t.isFile cwd root := by
    rw [FileTree.isFile, FileTree.isFile, h.lookup?_eq]
  have hdirectory : t'.isDirectory cwd root = t.isDirectory cwd root := by
    rw [FileTree.isDirectory, FileTree.isDirectory, h.lookup?_eq]
  rw [sourceFiles, sourceFiles, hfile, hdirectory, FileTree.filesUnder, FileTree.filesUnder, hplace]
  cases t.place cwd root with
  | error stop => rfl
  | ok place =>
      have hsort := sourceNames_mergeSort_of_relists (d := d) h place
      unfold sourceNames at hsort
      simp only [hsort]

theorem steady_sources (root : Path) : Action.Steady
    (Action.workspace >>= fun w => Action.ofExcept (d.sourceFiles w.tree w.cwd root)) := by
  rintro w _ ⟨tree, rfl, h⟩
  constructor
  · exact sourceFiles_of_relists h w.cwd root
  · exact ⟨tree, rfl, h⟩

theorem steady_readFile (r : Recovery) (file : SourceFile) :
    Action.Steady (d.readFile r file) := by
  apply (Action.steady_tryReadText file.path).bind
  intro text
  match d.namespaceOfText file text with
  | .ok (some ns) => exact Action.steady_pure _
  | .ok none => exact (Action.steady_logAs _ _ _).bind fun _ => Action.steady_pure _
  | .error f =>
      cases f with
      | source path reason =>
          cases r with
          | handOver => exact (Action.steady_handle _ _).bind fun _ => Action.steady_pure _
          | stop => exact Action.steady_fail _
          | misuse => exact Action.steady_fail _
      | _ => exact Action.steady_fail _

theorem steady_readFiles (r : Recovery) (files : List SourceFile) :
    Action.Steady (d.readFiles r files) := by
  induction files with
  | nil => exact Action.steady_pure _
  | cons file files ih =>
      exact (steady_readFile r file).bind fun _ => ih.bind fun _ => Action.steady_pure _

theorem steady_read (r : Recovery) (roots : List Path) : Action.Steady (d.read r roots) := by
  have hroots : Action.Steady (d.readRoots r roots) := by
    induction roots with
    | nil => exact Action.steady_pure _
    | cons root roots ih =>
        rw [readRoots_cons]
        apply (steady_sources root).bind
        intro files
        exact (steady_readFiles r files).bind fun _ => ih.bind fun _ => Action.steady_pure _
  exact hroots.bind fun _ => (Action.steady_logAs _ _ _).bind fun _ => Action.steady_pure _

/-- A pass over roots that exist reads the sources of each root, in order.  It ends with the
first failure that it does not hand over, or with all that is found; then each file that fails
has been handed over.  None of this depends on the order in which files are listed. -/
theorem read_in_order {d : Dialect} {w : Workspace} {roots : List Path} (proper : w.tree.Proper)
    (existing : ∀ root ∈ roots,
      w.tree.isFile w.cwd root = true ∨ w.tree.isDirectory w.cwd root = true) :
    (∀ root ∈ roots, d.Lists w root (d.filesAt w root)) ∧
    (∀ r : Recovery, ∃ readings : List Reading,
      readings.map Prod.fst = roots.flatMap (d.filesAt w) ∧
      (∀ reading ∈ readings, d.ReadsAs w reading) ∧
      (d.read r roots w).1 = r.verdict readings ∧
      ∀ nss w', d.read r roots w = (.ok nss, w') →
        w'.handled = w.handled ++ readings.filterMap Reading.handed?) ∧
    ∀ tree : FileTree, tree.entries.Perm w.tree.entries → ∀ r : Recovery,
      (d.read r roots { w with tree := tree }).1 = (d.read r roots w).1 ∧
      (d.read r roots { w with tree := tree }).2.handled = (d.read r roots w).2.handled := by
  refine ⟨fun root hroot => lists_filesAt proper (existing root hroot), ?_, ?_⟩
  · intro r
    obtain ⟨readings, hfiles, hreads, last, hread, hlast⟩ := settles_read r existing w (.refl w)
    refine ⟨readings, hfiles, hreads, by rw [hread], ?_⟩
    intro nss w' h
    obtain ⟨hverdict, rfl⟩ := Prod.mk.inj (hread.symm.trans h)
    exact (hlast nss hverdict).2
  · intro tree perm r
    obtain ⟨hresult, tree', hlast, -⟩ :=
      steady_read r roots w { w with tree := tree } ⟨tree, rfl, proper.relists perm⟩
    exact ⟨hresult, by rw [hlast]⟩

/-- Sources out of order, one of them not closed, one without a header and one in a hidden
directory. -/
def unorderedFiles : Workspace :=
  { cwd := ⟨true, []⟩,
    tree := ⟨[(["s"], .directory), (["s", "c.clj"], .file (bytesOf "(ns c)")),
      (["s", ".git"], .directory), (["s", ".git", "a.clj"], .file (bytesOf "(ns g)")),
      (["s", "b.clj"], .file (bytesOf "(ns b")), (["s", "n.txt"], .file []),
      (["s", "a"], .directory), (["s", "a", "z.cljc"], .file (bytesOf "(ns z)")),
      (["s", "a", "d.clj"], .file (bytesOf "1"))]⟩ }

def orderedNames : List (List Text) := [["a", "d.clj"], ["a", "z.cljc"], ["b.clj"], ["c.clj"]]

theorem filesAt_unorderedFiles :
    clojure.filesAt unorderedFiles (Path.ofText "s") = orderedNames.map fun names =>
      ⟨(Path.ofText "s").join (Path.relative names), Text.join "/" names⟩ := by
  have hnames : clojure.sourceNames unorderedFiles.tree [Text.ofString "s"] =
      orderedNames.reverse := by decide +kernel
  have hsorted : orderedNames.Pairwise fun a b => pathTextLe a b = true := by decide +kernel
  have hsort : orderedNames.reverse.mergeSort pathTextLe = orderedNames.mergeSort pathTextLe :=
    mergeSort_of_perm (List.reverse_perm _).symm (by decide +kernel)
  have hplace : unorderedFiles.tree.place unorderedFiles.cwd (Path.ofText "s") =
      .ok [Text.ofString "s"] := by decide +kernel
  rw [filesAt_of_isDirectory hplace (by decide +kernel), hnames, hsort,
    List.mergeSort_of_pairwise hsorted]

/-- They are read in order, also if they are listed backwards. -/
theorem read_in_order_unorderedFiles :
    unorderedFiles.tree.Proper ∧
      unorderedFiles.tree.isDirectory unorderedFiles.cwd (Path.ofText "s") = true ∧
      (clojure.filesAt unorderedFiles (Path.ofText "s")).map SourceFile.relativeName =
        [Text.ofString "a/d.clj", "a/z.cljc", "b.clj", "c.clj"] ∧
      ∃ nss w', clojure.read .handOver [Path.ofText "s"] unorderedFiles = (.ok nss, w') ∧
        nss.map Namespace.name = [some (Text.ofString "z"), some (Text.ofString "c")] ∧
        w'.handled.map Prod.snd = [Text.ofString "s/b.clj"] ∧
        (clojure.read .handOver [Path.ofText "s"]
          { unorderedFiles with tree := ⟨unorderedFiles.tree.entries.reverse⟩ }).1 = .ok nss := by
  have hproper : unorderedFiles.tree.Proper := by
    constructor
    · unfold FileTree.Named
      decide +kernel
    · decide +kernel
  have hdirectory : unorderedFiles.tree.isDirectory unorderedFiles.cwd (Path.ofText "s") =
      true := by decide +kernel
  have hexisting : ∀ root ∈ [Path.ofText "s"],
      unorderedFiles.tree.isFile unorderedFiles.cwd root = true ∨
        unorderedFiles.tree.isDirectory unorderedFiles.cwd root = true := by simp [hdirectory]
  obtain ⟨-, hpass, hrelisted⟩ := read_in_order (d := clojure) hproper hexisting
  obtain ⟨readings, hfiles, hreads, hverdict, hhandled⟩ := hpass .handOver
  obtain ⟨hback, -⟩ := hrelisted ⟨_⟩ (List.reverse_perm _) .handOver
  have hall := eq_map_of_readsAs hreads fun place ⟨l, hl, _⟩ => nomatch hl
  rw [hfiles, List.flatMap_singleton, filesAt_unorderedFiles] at hall
  have hfound : readings.findSome? (Reading.ends? .handOver) = none ∧
      (readings.filterMap Reading.found?).map Namespace.name =
        [some (Text.ofString "z"), some (Text.ofString "c")] ∧
      (readings.filterMap Reading.handed?).map Prod.snd = [Text.ofString "s/b.clj"] := by
    rw [hall]
    decide +kernel
  obtain ⟨hends, hnames, hpaths⟩ := hfound
  rw [Recovery.verdict, hends] at hverdict
  have hread : clojure.read .handOver [Path.ofText "s"] unorderedFiles =
      (.ok (readings.filterMap Reading.found?), _) := Prod.ext hverdict rfl
  refine ⟨hproper, hdirectory, ?_, _, _, hread, hnames, ?_, hback.trans hverdict⟩
  · rw [filesAt_unorderedFiles]
    decide +kernel
  · rw [hhandled _ _ hread]
    exact hpaths

end Dialect

end Docsmith
