import Docsmith.Proofs.Enumeration
import Docsmith.Run.Generate

/-!
# The order of documents

The documents of a run are sorted by name.  Names drop the suffix, so several files may have one
name: then those of the first documentation path come first, and below one path they stand in one
directory and come by their file names.  So there is one order for the documents of a file tree,
in whatever order its directories list their entries.
-/

namespace Docsmith

/-! ## The order of a walk -/

theorem nil_walkLe (t : List Text) : walkLe [] t = true := by
  cases t <;> rfl

theorem walkLe_total (s t : List Text) : walkLe s t = true ∨ walkLe t s = true := by
  induction s generalizing t with
  | nil => exact .inl (nil_walkLe t)
  | cons a s ih =>
      rcases t with _ | ⟨b, t⟩
      · exact .inr rfl
      · rcases s with _ | ⟨a', s⟩ <;> rcases t with _ | ⟨b', t⟩ <;>
          grind [walkLe, Text.le_total]

theorem walkLe_trans {s t u : List Text} (hst : walkLe s t = true) (htu : walkLe t u = true) :
    walkLe s u = true := by
  induction s generalizing t u with
  | nil => exact nil_walkLe u
  | cons a s ih =>
      rcases t with _ | ⟨b, t⟩
      · cases hst
      rcases u with _ | ⟨c, u⟩
      · cases htu
      rcases s with _ | ⟨a', s⟩ <;> rcases t with _ | ⟨b', t⟩ <;> rcases u with _ | ⟨c', u⟩ <;>
        grind [walkLe, Text.le_trans, Text.le_antisymm]

theorem walkLe_antisymm {s t : List Text} (hst : walkLe s t = true) (hts : walkLe t s = true) :
    s = t := by
  induction s generalizing t with
  | nil =>
      cases t with
      | nil => rfl
      | cons b t => cases hts
  | cons a s ih =>
      rcases t with _ | ⟨b, t⟩
      · cases hst
      rcases s with _ | ⟨a', s⟩ <;> rcases t with _ | ⟨b', t⟩ <;>
        grind [walkLe, Text.le_antisymm]

theorem walkLe_append_singleton (directories : List Text) (a b : Text) :
    walkLe (directories ++ [a]) (directories ++ [b]) = Text.le a b := by
  induction directories with
  | nil => rfl
  | cons d ds ih => cases ds <;> simp_all [walkLe]

theorem pairwise_mergeSort_walkLe (l : List (List Text)) :
    (l.mergeSort walkLe).Pairwise fun s t => walkLe s t = true := by
  apply List.pairwise_mergeSort
  · intro s t u hst htu
    exact walkLe_trans hst htu
  · intro s t
    simpa using walkLe_total s t

theorem mergeSort_walkLe_of_perm {l l' : List (List Text)} (perm : l'.Perm l) :
    l'.mergeSort walkLe = l.mergeSort walkLe := by
  refine List.Perm.eq_of_pairwise ?_ (pairwise_mergeSort_walkLe l') (pairwise_mergeSort_walkLe l) ?_
  · exact fun s t _ _ hst hts => walkLe_antisymm hst hts
  · exact (List.mergeSort_perm l' _).trans (perm.trans (List.mergeSort_perm l _).symm)

/-! ## Sorting keeps the order of one name -/

theorem pair_sublist_or {α : Type} {a b : α} {as : List α} (ha : a ∈ as) (hb : b ∈ as)
    (hne : a ≠ b) : [a, b].Sublist as ∨ [b, a].Sublist as := by
  obtain ⟨before, after, rfl⟩ := List.append_of_mem ha
  rcases List.mem_append.1 hb with hb | hb
  · right
    exact (List.singleton_sublist.2 hb).append (List.singleton_sublist.2 List.mem_cons_self)
  · left
    have hb : b ∈ after := (List.mem_cons.1 hb).resolve_left (Ne.symm hne)
    exact ((List.singleton_sublist.2 hb).cons_cons a).trans (List.sublist_append_right _ _)

theorem not_pair_sublist_swap {α : Type} {a b : α} {as : List α} (nodup : as.Nodup)
    (h : [a, b].Sublist as) : ¬[b, a].Sublist as := by
  induction as with
  | nil => cases h
  | cons c as ih =>
      obtain ⟨hc, nodup⟩ := List.nodup_cons.1 nodup
      intro hswap
      cases h with
      | cons _ h =>
          cases hswap with
          | cons _ hswap => exact ih nodup h hswap
          | cons_cons => exact hc (h.subset (by simp))
      | cons_cons _ h =>
          cases hswap with
          | cons _ hswap => exact hc (hswap.subset (by simp))
          | cons_cons => exact hc (h.subset (by simp))

theorem pairwise_mergeSort_stable {α : Type} {name : α → Text} {tied : α → α → Prop}
    {as : List α} (nodup : as.Nodup)
    (h : as.Pairwise fun a b => name a = name b → tied a b) :
    (as.mergeSort fun a b => Text.le (name a) (name b)).Pairwise fun a b =>
      Text.le (name a) (name b) = true ∧ (name a = name b → tied a b) := by
  refine (pairwise_mergeSort_by name as).and (List.pairwise_iff_forall_sublist.2 ?_)
  intro a b hsorted hname
  have hsame : Text.le (name b) (name a) = true := by
    rw [hname]
    exact (Text.le_total _ _).elim id id
  have hnodup : (as.mergeSort fun a b => Text.le (name a) (name b)).Nodup :=
    nodup.perm (List.mergeSort_perm as _).symm
  have hmem {c : α} (hc : c ∈ [a, b]) : c ∈ as := List.mem_mergeSort.1 (hsorted.subset hc)
  have hne : a ≠ b := by simpa using hnodup.sublist hsorted
  rcases pair_sublist_or (hmem (by simp)) (hmem (by simp)) hne with hfirst | hlast
  · exact List.pairwise_iff_forall_sublist.1 h hfirst hname
  · have hback : [b, a].Sublist (as.mergeSort fun a b => Text.le (name a) (name b)) :=
      List.pair_sublist_mergeSort (fun _ _ _ => Text.le_trans)
        (fun a b => by simpa using Text.le_total _ _) hsame hlast
    exact absurd hback (not_pair_sublist_swap hnodup hsorted)

/-! ## The files that are documents -/

/-- A file that is read as a document, by its names from the directory that it was found under,
with the position of that directory among all that were given. -/
structure DocumentFile where
  position : Nat
  directory : Path
  names : List Text
deriving DecidableEq, Repr

namespace DocumentFile

def path (f : DocumentFile) : Path := f.directory.join (Path.relative f.names)

def name (f : DocumentFile) : Text := (Path.relative f.names).dropSuffix.text

def fileName (f : DocumentFile) : Text := (Path.relative f.names).name

inductive Tied (a b : DocumentFile) : Prop
  | position (earlier : a.position < b.position) : Tied a b
  | fileName (together : a.position = b.position) (le : Text.le a.fileName b.fileName = true)
      (ne : a.fileName ≠ b.fileName) : Tied a b

/-- Files come in the order of their documents' names. -/
inductive Precedes (a b : DocumentFile) : Prop
  | name (le : Text.le a.name b.name = true) (ne : a.name ≠ b.name) : Precedes a b
  | tied (same : a.name = b.name) (tied : a.Tied b) : Precedes a b

def read (t : FileTree) (cwd : Path) (f : DocumentFile) : Except Failure Document :=
  match t.readText cwd f.path with
  | .ok content => .ok (Document.ofContent f.path f.name content)
  | .error (.file .unusableName) => .error (.file .unusableName)
  | .error e => .error (.source f.path.text e.message)

theorem load_apply (f : DocumentFile) (w : Workspace) :
    Document.load f.path f.name w = (f.read w.tree w.cwd, w) := by
  have htext : Action.tryReadText f.path w = (.ok (w.tree.readText w.cwd f.path), w) := rfl
  rw [Document.load, Action.bind_of_ok htext, read]
  cases w.tree.readText w.cwd f.path with
  | ok content => rfl
  | error e =>
      cases e with
      | bytes fault => rfl
      | file fault => cases fault <;> rfl

theorem read_eq_ok_iff {t : FileTree} {cwd : Path} {f : DocumentFile} {d : Document} :
    f.read t cwd = .ok d ↔ ∃ content, t.readText cwd f.path = .ok content ∧
      d = Document.ofContent f.path f.name content := by
  unfold read
  cases t.readText cwd f.path with
  | ok content => simp [eq_comm]
  | error e =>
      cases e with
      | bytes fault => simp
      | file fault => cases fault <;> simp

end DocumentFile

namespace Document

def documentFiles (t : FileTree) (cwd : Path) : Nat → List Path → List DocumentFile
  | _, [] => []
  | k, directory :: rest =>
      (documentNames t cwd directory).map (DocumentFile.mk k directory) ++
        documentFiles t cwd (k + 1) rest

theorem readAll_apply (k : Nat) (directory : Path) (l : List (List Text)) (w : Workspace) :
    readAll directory l w =
      ((l.map (DocumentFile.mk k directory)).mapM (DocumentFile.read w.tree w.cwd), w) := by
  induction l with
  | nil => rfl
  | cons names l ih =>
      have hload : load (directory.join (Path.relative names))
          (Path.relative names).dropSuffix.text w = _ :=
        DocumentFile.load_apply ⟨k, directory, names⟩ w
      rw [readAll, List.map_cons, List.mapM_cons, Action.bind_apply, hload]
      cases DocumentFile.read w.tree w.cwd ⟨k, directory, names⟩ with
      | error e => rfl
      | ok d =>
          dsimp only
          rw [Action.bind_apply, ih]
          cases List.mapM (DocumentFile.read w.tree w.cwd) (l.map (DocumentFile.mk k directory)) <;>
            rfl

theorem readDirectories_apply (k : Nat) (directories : List Path) (w : Workspace) :
    readDirectories directories w =
      ((documentFiles w.tree w.cwd k directories).mapM (DocumentFile.read w.tree w.cwd), w) := by
  induction directories generalizing k with
  | nil => rfl
  | cons directory directories ih =>
      have hworkspace : Action.workspace w = (.ok w, w) := rfl
      rw [readDirectories, Action.bind_of_ok hworkspace, Action.bind_apply, readAll_apply k,
        documentFiles, List.mapM_append]
      cases List.mapM (DocumentFile.read w.tree w.cwd)
          ((documentNames w.tree w.cwd directory).map (DocumentFile.mk k directory)) with
      | error e => rfl
      | ok ds =>
          dsimp only
          rw [Action.bind_apply, ih (k + 1)]
          cases List.mapM (DocumentFile.read w.tree w.cwd)
            (documentFiles w.tree w.cwd (k + 1) directories) <;> rfl

theorem mem_documentFiles_iff {t : FileTree} {cwd : Path} {k : Nat} {directories : List Path}
    {f : DocumentFile} : f ∈ documentFiles t cwd k directories ↔
      ∃ i, f.position = k + i ∧ directories[i]? = some f.directory ∧
        f.names ∈ documentNames t cwd f.directory := by
  obtain ⟨position, directory, names⟩ := f
  induction directories generalizing k with
  | nil => simp [documentFiles]
  | cons first directories ih =>
      rw [documentFiles, List.mem_append, ih]
      constructor
      · rintro (h | ⟨i, hposition, hdirectory, hnames⟩)
        · obtain ⟨_, hnames, ⟨⟩⟩ := List.mem_map.1 h
          exact ⟨0, rfl, rfl, hnames⟩
        · exact ⟨i + 1, by dsimp only at hposition ⊢; omega, hdirectory, hnames⟩
      · rintro ⟨i, hposition, hdirectory, hnames⟩
        cases i with
        | zero =>
            cases hdirectory
            cases hposition
            exact .inl (List.mem_map_of_mem hnames)
        | succ i =>
            exact .inr ⟨i, by dsimp only at hposition ⊢; omega, hdirectory, hnames⟩

end Document

/-! ## One name below one directory -/

theorem Text.join_inj {sep : CodePoint} {ts us : List Text} (hts : ts ≠ []) (hus : us ≠ [])
    (ht : ∀ t ∈ ts, sep ∉ t) (hu : ∀ u ∈ us, sep ∉ u) (h : join [sep] ts = join [sep] us) :
    ts = us := by
  rw [← splitOn_join hts ht, h, splitOn_join hus hu]

theorem Path.splitSuffix_fst_subset (name : Text) : (splitSuffix name).1 ⊆ name := by
  unfold splitSuffix
  dsimp only
  split
  · exact List.take_subset _ _
  · exact List.Subset.refl _

theorem Path.text_dropSuffix (directories : List Text) (last : Text) :
    (relative (directories ++ [last])).dropSuffix.text =
      Text.join "/" (directories ++ [(splitSuffix last).1]) := by
  simp [dropSuffix, relative, text]

theorem exists_eq_append_of_dropSuffix {s t : List Text} (hs : s ≠ []) (ht : t ≠ [])
    (hsname : ∀ n ∈ s, Path.IsName n) (htname : ∀ n ∈ t, Path.IsName n)
    (h : (Path.relative s).dropSuffix.text = (Path.relative t).dropSuffix.text) :
    ∃ directories a b, s = directories ++ [a] ∧ t = directories ++ [b] := by
  obtain ⟨ds, a, rfl⟩ := (List.eq_nil_or_concat' s).resolve_left hs
  obtain ⟨ds', b, rfl⟩ := (List.eq_nil_or_concat' t).resolve_left ht
  rw [Path.text_dropSuffix, Path.text_dropSuffix] at h
  have hslash {ds : List Text} {a : Text} (hname : ∀ n ∈ ds ++ [a], Path.IsName n) :
      ∀ n ∈ ds ++ [(Path.splitSuffix a).1], ('/' : CodePoint) ∉ n := by
    obtain ⟨hds, ha⟩ := List.forall_mem_append.1 hname
    refine List.forall_mem_append.2 ⟨fun n hn => (hds n hn).noSlash, ?_⟩
    refine List.forall_mem_singleton.2 fun hmem => ?_
    exact (ha a List.mem_cons_self).noSlash (Path.splitSuffix_fst_subset a hmem)
  have hnames := Text.join_inj (by simp) (by simp) (hslash hsname) (hslash htname) h
  obtain ⟨rfl, -⟩ := List.append_singleton_inj.1 hnames
  exact ⟨ds, a, b, rfl, rfl⟩

namespace Document

open FileTree

def suffixes : List Text := [".md", ".markdown", ".txt"]

def namesBelow (t : FileTree) (place : List Text) : List (List Text) :=
  (t.visibleFiles place).filter fun names => formats.has (Path.relative names).suffix.lower

variable {t t' : FileTree} {cwd : Path}

theorem documentNames_of_place {directory : Path} {place : List Text}
    (hplace : t.place cwd directory = .ok place) (hentry : t.entry? place = some .directory) :
    documentNames t cwd directory = (namesBelow t place).mergeSort walkLe := by
  rw [documentNames, if_pos (isDirectory_iff.2 ⟨_, hplace, hentry⟩), filesUnder, hplace]
  rfl

theorem namesBelow_sublist (t : FileTree) (place : List Text) :
    (namesBelow t place).Sublist (t.filesBelow place) :=
  List.filter_sublist.trans List.filter_sublist

theorem mem_namesBelow_iff (proper : t.Proper) {place names : List Text} :
    names ∈ namesBelow t place ↔
      (names ≠ [] ∧ ∃ bytes, t.entry? (place ++ names) = some (.file bytes)) ∧
        (∀ n ∈ names.dropLast, isHidden n = false) ∧
        (Path.relative names).suffix.lower ∈ suffixes := by
  have hformats (suffix : Text) : formats.has suffix = true ↔ suffix ∈ suffixes := by
    have hkeys : suffixes = formats.map Prod.fst := rfl
    rw [hkeys, List.mem_map, Table.has, List.any_eq_true]
    simp only [decide_eq_true_eq]
  rw [namesBelow, visibleFiles, List.mem_filter, List.mem_filter, proper.mem_filesBelow_iff,
    hformats]
  simp [and_assoc]

theorem mem_documentNames_iff {directory : Path} {names : List Text} :
    names ∈ documentNames t cwd directory ↔
      ∃ place, t.place cwd directory = .ok place ∧ t.entry? place = some .directory ∧
        names ∈ namesBelow t place := by
  by_cases hdirectory : t.isDirectory cwd directory = true
  · obtain ⟨place, hplace, hentry⟩ := isDirectory_iff.1 hdirectory
    rw [documentNames_of_place hplace hentry, List.mem_mergeSort]
    constructor
    · exact fun h => ⟨place, hplace, hentry, h⟩
    · rintro ⟨place', hplace', -, h⟩
      rw [hplace] at hplace'
      exact Except.ok.inj hplace' ▸ h
  · rw [documentNames, if_neg hdirectory]
    constructor
    · exact fun h => absurd h List.not_mem_nil
    · rintro ⟨place, hplace, hentry, -⟩
      exact absurd (isDirectory_iff.2 ⟨place, hplace, hentry⟩) hdirectory

/-- The names below one directory come in the order of a walk, each once, and those of one name
by the names of their files. -/
theorem pairwise_documentNames (proper : t.Proper) (k : Nat) (directory : Path) :
    ((documentNames t cwd directory).map (DocumentFile.mk k directory)).Pairwise fun a b =>
      a ≠ b ∧ (a.name = b.name → a.Tied b) := by
  by_cases hdirectory : t.isDirectory cwd directory = true
  case neg =>
    rw [documentNames, if_neg hdirectory]
    exact .nil
  obtain ⟨place, hplace, hentry⟩ := isDirectory_iff.1 hdirectory
  rw [documentNames_of_place hplace hentry]
  have hunder : t.filesUnder cwd directory = t.visibleFiles place := by rw [filesUnder, hplace]
  have hnames {names : List Text} (h : names ∈ (namesBelow t place).mergeSort walkLe) :=
    isName_of_mem_filesUnder proper.named
      (hunder ▸ (List.mem_filter.1 (List.mem_mergeSort.1 h)).1)
  have hnodup : ((namesBelow t place).mergeSort walkLe).Nodup :=
    ((proper.nodup_filesBelow place).sublist (namesBelow_sublist t place)).perm
      (List.mergeSort_perm _ walkLe).symm
  refine List.pairwise_map.2 (((pairwise_mergeSort_walkLe _).and hnodup).imp_of_mem ?_)
  rintro names names' hmem hmem' ⟨hle, hne⟩
  refine ⟨fun h => hne (DocumentFile.mk.inj h).2.2, fun hname => ?_⟩
  obtain ⟨ds, a, b, rfl, rfl⟩ := exists_eq_append_of_dropSuffix (hnames hmem).1 (hnames hmem').1
    (hnames hmem).2 (hnames hmem').2 hname
  rw [walkLe_append_singleton] at hle
  refine .fileName rfl ?_ ?_
  · simpa [DocumentFile.fileName, Path.relative, Path.name] using hle
  · simpa [DocumentFile.fileName, Path.relative, Path.name] using hne

theorem pairwise_documentFiles (proper : t.Proper) (k : Nat) (directories : List Path) :
    (documentFiles t cwd k directories).Pairwise fun a b =>
      a ≠ b ∧ (a.name = b.name → a.Tied b) := by
  induction directories generalizing k with
  | nil => exact .nil
  | cons directory directories ih =>
      refine List.pairwise_append.2 ⟨pairwise_documentNames proper k directory, ih (k + 1), ?_⟩
      intro a ha b hb
      obtain ⟨_, -, rfl⟩ := List.mem_map.1 ha
      obtain ⟨i, hposition, -⟩ := mem_documentFiles_iff.1 hb
      have hearlier : k < b.position := by omega
      refine ⟨?_, fun _ => .position hearlier⟩
      rintro rfl
      exact Nat.lt_irrefl _ hearlier

/-! ## Listings in another order -/

theorem documentNames_of_relists (h : t.Relists t') (cwd directory : Path) :
    documentNames t' cwd directory = documentNames t cwd directory := by
  have hplace : t'.place cwd directory = t.place cwd directory := h.walkFrom_eq _ _
  have hdirectory : t'.isDirectory cwd directory = t.isDirectory cwd directory := by
    rw [FileTree.isDirectory, FileTree.isDirectory, h.lookup?_eq]
  rw [documentNames, documentNames, hdirectory, filesUnder, filesUnder, hplace]
  cases t.place cwd directory with
  | error stop => rfl
  | ok place =>
      have hsort := mergeSort_walkLe_of_perm
        (((h.listing place).filter fun names => !names.dropLast.any isHidden).filter fun names =>
          formats.has (Path.relative names).suffix.lower)
      simp only [visibleFiles, hsort]

theorem documentFiles_of_relists (h : t.Relists t') (cwd : Path) (k : Nat)
    (directories : List Path) :
    documentFiles t' cwd k directories = documentFiles t cwd k directories := by
  induction directories generalizing k with
  | nil => rfl
  | cons directory directories ih =>
      rw [documentFiles, documentFiles, documentNames_of_relists h, ih]

theorem read_of_relists (h : t.Relists t') (cwd : Path) :
    DocumentFile.read t' cwd = DocumentFile.read t cwd := by
  funext f
  rw [DocumentFile.read, DocumentFile.read, h.readText_eq]

end Document

namespace Run

open Document

/-- A file is one of the documents under the documentation paths. -/
structure Documents (o : Options) (w : Workspace) (f : DocumentFile) : Prop where
  listed : ∃ path, o.docPaths[f.position]? = some path ∧
    f.directory = o.root.join (Path.ofText path)
  file : ∃ place bytes, w.tree.place w.cwd f.directory = .ok place ∧
    w.tree.entry? place = some .directory ∧ f.names ≠ [] ∧
    w.tree.entry? (place ++ f.names) = some (.file bytes)
  visible : ∀ n ∈ f.names.dropLast, isHidden n = false
  suffix : (Path.relative f.names).suffix.lower ∈ suffixes

def docDirectories (o : Options) : List Path := o.docPaths.map fun p => o.root.join (Path.ofText p)

theorem documents_iff {o : Options} {w : Workspace} (proper : w.tree.Proper) (f : DocumentFile) :
    Documents o w f ↔ f ∈ documentFiles w.tree w.cwd 0 (docDirectories o) := by
  rw [mem_documentFiles_iff]
  simp only [Nat.zero_add, docDirectories, List.getElem?_map, Option.map_eq_some_iff,
    mem_documentNames_iff, mem_namesBelow_iff proper]
  constructor
  · rintro ⟨⟨path, hpath, hdirectory⟩, ⟨place, bytes, hplace, hentry, hne, hbytes⟩, hvisible,
      hsuffix⟩
    exact ⟨f.position, rfl, ⟨path, hpath, hdirectory.symm⟩, place, hplace, hentry,
      ⟨hne, bytes, hbytes⟩, hvisible, hsuffix⟩
  · rintro ⟨_, rfl, ⟨path, hpath, hdirectory⟩, place, hplace, hentry, ⟨hne, bytes, hbytes⟩,
      hvisible, hsuffix⟩
    exact ⟨⟨path, hpath, hdirectory.symm⟩, ⟨place, bytes, hplace, hentry, hne, hbytes⟩, hvisible,
      hsuffix⟩

theorem readDocuments_apply {o : Options} (scanned : o.docFiles = none) (w : Workspace) :
    readDocuments o w =
      (((documentFiles w.tree w.cwd 0 (docDirectories o)).mapM
        (DocumentFile.read w.tree w.cwd)).map fun ds =>
          ds.mergeSort fun a b => Text.le a.name b.name, w) := by
  rw [readDocuments, scanned]
  change (readDirectories (docDirectories o) >>= fun ds => pure _) w = _
  rw [Action.bind_apply, readDirectories_apply 0]
  cases (documentFiles w.tree w.cwd 0 (docDirectories o)).mapM
    (DocumentFile.read w.tree w.cwd) <;> rfl

/-- The documents under the documentation paths are one for each file with a suffix of documents
that lies below a path in no hidden directory, once for each of the paths.  They come by name;
of one name, by the position of the path and then by the name of the file.  They are there just
if each of these files can be read.  What is read, or the failure that it ends with, does not
depend on the order in which files are listed. -/
theorem readDocuments_in_order {o : Options} {w : Workspace} (proper : w.tree.Proper)
    (scanned : o.docFiles = none) :
    (∀ ds w', readDocuments o w = (.ok ds, w') → ∃ files : List DocumentFile,
      (∀ f, f ∈ files ↔ Documents o w f) ∧ files.Pairwise DocumentFile.Precedes ∧
      List.Forall₂ (fun f d => ∃ content, w.tree.readText w.cwd f.path = .ok content ∧
        d = Document.ofContent f.path f.name content) files ds) ∧
    ((∃ ds, (readDocuments o w).1 = .ok ds) ↔
      ∀ f, Documents o w f → ∃ content, w.tree.readText w.cwd f.path = .ok content) ∧
    ∀ tree : FileTree, tree.entries.Perm w.tree.entries →
      (readDocuments o { w with tree := tree }).1 = (readDocuments o w).1 := by
  refine ⟨fun ds w' h => ?_, ?_, fun tree perm => ?_⟩
  · rw [readDocuments_apply scanned] at h
    obtain ⟨found, hfound, rfl⟩ := exists_of_map_eq_ok (congrArg Prod.fst h)
    have hsorted : (documentFiles w.tree w.cwd 0 (docDirectories o)).Pairwise _ :=
      pairwise_documentFiles proper 0 (docDirectories o)
    refine ⟨(documentFiles w.tree w.cwd 0 (docDirectories o)).mergeSort
      fun a b => Text.le a.name b.name, fun f => ?_, ?_, ?_⟩
    · rw [List.mem_mergeSort, documents_iff proper]
    · have hstable := pairwise_mergeSort_stable (hsorted.imp And.left) (hsorted.imp And.right)
      refine hstable.imp fun {a b} ⟨hle, htied⟩ => ?_
      by_cases hname : a.name = b.name
      · exact .tied hname (htied hname)
      · exact .name hle hname
    · have hread := (forall₂_of_mapM_eq_ok hfound).imp fun f d => DocumentFile.read_eq_ok_iff.1
      refine forall₂_mergeSort ?_ hread
      rintro a b _ _ ⟨_, -, rfl⟩ ⟨_, -, rfl⟩
      rfl
  · have hread (f : DocumentFile) : (∃ d, f.read w.tree w.cwd = .ok d) ↔
        ∃ content, w.tree.readText w.cwd f.path = .ok content := by
      simp only [DocumentFile.read_eq_ok_iff]
      exact ⟨fun ⟨_, content, h, _⟩ => ⟨content, h⟩, fun ⟨content, h⟩ => ⟨_, content, h, rfl⟩⟩
    simp only [documents_iff proper, ← hread, ← exists_mapM_eq_ok_iff,
      readDocuments_apply scanned]
    constructor
    · rintro ⟨_, h⟩
      obtain ⟨ds, hds, -⟩ := exists_of_map_eq_ok h
      exact ⟨ds, hds⟩
    · rintro ⟨ds, h⟩
      exact ⟨_, by rw [h]; rfl⟩
  · have hrelists := proper.relists perm
    rw [readDocuments_apply scanned, readDocuments_apply scanned]
    simp only [documentFiles_of_relists hrelists, read_of_relists hrelists]

/-- Three files of one name under two paths, and two that are no documents. -/
def scatteredDocuments : Workspace :=
  { cwd := ⟨true, []⟩,
    tree := ⟨[(["d"], .directory), (["d", "b.txt"], .file []), (["d", "b.MD"], .file []),
      (["d", ".x"], .directory), (["d", ".x", "a.md"], .file []), (["e"], .directory),
      (["e", "b.md"], .file []), (["e", "n.clj"], .file [])]⟩ }

def proseOptions : Options :=
  { root := ⟨true, []⟩, docPaths := ["e", "none", "d"], docFiles := none,
    commit := .known .null }

theorem documentFiles_scattered :
    documentFiles scatteredDocuments.tree scatteredDocuments.cwd 0 (docDirectories proseOptions) =
      [⟨0, ⟨true, ["e"]⟩, ["b.md"]⟩, ⟨2, ⟨true, ["d"]⟩, ["b.MD"]⟩,
        ⟨2, ⟨true, ["d"]⟩, ["b.txt"]⟩] := by
  have hsorted (directory : Path) (place : List Text) (names : List (List Text))
      (hplace : scatteredDocuments.tree.place ⟨true, []⟩ directory = .ok place)
      (hentry : scatteredDocuments.tree.entry? place = some .directory)
      (hperm : (namesBelow scatteredDocuments.tree place).Perm names)
      (hpairwise : names.Pairwise fun s t => walkLe s t = true) :
      documentNames scatteredDocuments.tree ⟨true, []⟩ directory = names := by
    rw [documentNames_of_place hplace hentry, mergeSort_walkLe_of_perm hperm]
    exact List.mergeSort_of_pairwise hpairwise
  have hfirst := hsorted ⟨true, ["e"]⟩ ["e"] [["b.md"]]
    (by decide +kernel) (by decide +kernel) (by decide +kernel) (by decide +kernel)
  have hnone : documentNames scatteredDocuments.tree ⟨true, []⟩ ⟨true, ["none"]⟩ = [] := by
    rw [documentNames, if_neg (by decide +kernel)]
  have hlast := hsorted ⟨true, ["d"]⟩ ["d"] [["b.MD"], ["b.txt"]]
    (by decide +kernel) (by decide +kernel) (by decide +kernel) (by decide +kernel)
  change documentFiles _ ⟨true, []⟩ 0 [⟨true, ["e"]⟩, ⟨true, ["none"]⟩, ⟨true, ["d"]⟩] = _
  simp only [documentFiles, hfirst, hnone, hlast]
  rfl

def scatteredFound : List Document :=
  [.ofContent ⟨true, ["e", "b.md"]⟩ "b" [], .ofContent ⟨true, ["d", "b.MD"]⟩ "b" [],
    .ofContent ⟨true, ["d", "b.txt"]⟩ "b" []]

theorem readDocuments_scattered :
    scatteredDocuments.tree.Proper ∧ proseOptions.docFiles = none ∧
      readDocuments proseOptions scatteredDocuments = (.ok scatteredFound, scatteredDocuments) ∧
      (∃ files : List DocumentFile,
        (∀ f, f ∈ files ↔ Documents proseOptions scatteredDocuments f) ∧
        files.Pairwise DocumentFile.Precedes) ∧
      (readDocuments proseOptions
        { scatteredDocuments with tree := ⟨scatteredDocuments.tree.entries.reverse⟩ }).1 =
          .ok scatteredFound := by
  have hproper : scatteredDocuments.tree.Proper := by
    constructor
    · unfold FileTree.Named
      decide +kernel
    · decide +kernel
  have hmap : (documentFiles scatteredDocuments.tree scatteredDocuments.cwd 0
      (docDirectories proseOptions)).mapM
        (DocumentFile.read scatteredDocuments.tree scatteredDocuments.cwd) =
      .ok scatteredFound := by
    rw [documentFiles_scattered]
    rfl
  have hread : readDocuments proseOptions scatteredDocuments =
      (.ok scatteredFound, scatteredDocuments) := by
    rw [readDocuments_apply rfl, hmap, Except.map, List.mergeSort_of_pairwise (by decide +kernel)]
  obtain ⟨hfiles, -, hlisted⟩ := readDocuments_in_order hproper (o := proseOptions) rfl
  obtain ⟨files, hmem, hsorted, -⟩ := hfiles _ _ hread
  exact ⟨hproper, rfl, hread, ⟨files, hmem, hsorted⟩,
    (hlisted ⟨_⟩ (List.reverse_perm _)).trans (congrArg Prod.fst hread)⟩

end Run

end Docsmith
