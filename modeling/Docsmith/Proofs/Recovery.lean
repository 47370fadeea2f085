import Docsmith.Proofs.Conversion
import Docsmith.Proofs.Passes

/-!
# What a handler is given

A pass over the sources that has a handler goes on after a source that cannot be read.  It
hands over a failure for each of them, in order.  But only what goes wrong before the forms of
a source are known is taken as a failure of that source.  A text that is read and cannot be
converted, or that holds an integer of too many digits, ends the pass.
-/

namespace Docsmith

/-! ## Actions that log and hand over -/

namespace Action

variable {α β : Type} {w : Workspace}

def HandsOver (w : Workspace) (x : Action α) (a : α) (failures : List (Failure × Text)) : Prop :=
  ∀ w', w.Alike w' →
    ∃ last, x w' = (.ok a, last) ∧ w.Alike last ∧ last.handled = w'.handled ++ failures

/-- Wherever the same files are seen, the action fails, and not as a run does. -/
def Strays (w : Workspace) (x : Action α) : Prop :=
  ∀ w', w.Alike w' → ∃ f last, x w' = (.error f, last) ∧ f.isFatal = false

theorem handsOver_pure (a : α) : HandsOver w (pure a) a [] := fun w' h =>
  ⟨w', rfl, h, (List.append_nil _).symm⟩

theorem handsOver_bind {x : Action α} {next : α → Action β} {a : α} {b : β}
    {failures more : List (Failure × Text)} (hx : HandsOver w x a failures)
    (hnext : HandsOver w (next a) b more) : HandsOver w (x >>= next) b (failures ++ more) := by
  intro w' h
  obtain ⟨mid, hmid, h, hhandled⟩ := hx w' h
  obtain ⟨last, hlast, h, hmore⟩ := hnext mid h
  refine ⟨last, by rw [bind_of_ok hmid, hlast], h, ?_⟩
  rw [hmore, hhandled, List.append_assoc]

theorem handsOver_map {x : Action α} {a : α} {failures : List (Failure × Text)}
    (hx : HandsOver w x a failures) (f : α → β) :
    HandsOver w (x >>= fun a => pure (f a)) (f a) failures := by
  rw [← List.append_nil failures]
  exact handsOver_bind hx (handsOver_pure (f a))

theorem handsOver_tryReadText {p : Path}
    (hp : ∀ place, w.tree.place w.cwd p = .ok place → ¬w.LogsTo place) :
    HandsOver w (tryReadText p) (w.tree.readText w.cwd p) [] := by
  intro w' h
  refine ⟨w', ?_, h, (List.append_nil _).symm⟩
  rw [tryReadText, h.cwd, h.tree.readText_eq hp]

theorem handsOver_logAs (part : Text) (level : Level) (message : Text) :
    HandsOver w (logAs part level message) () [] := by
  intro w' h
  refine ⟨_, rfl, h.trans (Workspace.alike_record w' _), ?_⟩
  obtain ⟨_, _, _, hrecord⟩ := Workspace.exists_record_eq w' ⟨loggerName part, level, message⟩
  rw [hrecord, List.append_nil]

theorem handsOver_handle (f : Failure) (path : Text) :
    HandsOver w (handle f path) () [(f, path)] := fun _ h =>
  ⟨_, rfl, h.trans ⟨rfl, rfl, .refl _⟩, rfl⟩

theorem strays_fail {f : Failure} (hf : f.isFatal = false) : Strays (α := α) w (fail f) :=
  fun w' _ => ⟨f, w', rfl, hf⟩

theorem Strays.bind {x : Action α} (hx : Strays w x) (next : α → Action β) :
    Strays w (x >>= next) := by
  intro w' h
  obtain ⟨f, last, hfails, hf⟩ := hx w' h
  exact ⟨f, last, by rw [bind_apply, hfails], hf⟩

theorem HandsOver.strays_bind {x : Action α} {next : α → Action β} {a : α}
    {failures : List (Failure × Text)} (hx : HandsOver w x a failures)
    (hnext : Strays w (next a)) : Strays w (x >>= next) := by
  intro w' h
  obtain ⟨mid, hmid, h, -⟩ := hx w' h
  obtain ⟨f, last, hfails, hf⟩ := hnext mid h
  exact ⟨f, last, by rw [bind_of_ok hmid, hfails], hf⟩

end Action

namespace Dialect

variable {d : Dialect} {w : Workspace}

/-! ## One file -/

/-- The text gives a namespace or none, or it has a fault on some line. -/
def Digests (d : Dialect) (text : Text) : Prop :=
  match Form.readAll d.features text with
  | .error e => e.line?.isSome = true
  | .ok forms => Definition.Sound d.macros forms

/-- Whatever is wrong with the file, a handler is told. -/
def Copes (d : Dialect) (w : Workspace) (file : SourceFile) : Prop :=
  ∀ text, w.tree.readText w.cwd file.path = .ok text → d.Digests text

def faultAt (d : Dialect) (w : Workspace) (file : SourceFile) : Option Text :=
  match w.tree.readText w.cwd file.path with
  | .error e => some e.message
  | .ok text =>
      match Form.readAll d.features text with
      | .error e => some e.message
      | .ok _ => none

def failureOf (file : SourceFile) (reason : Text) : Failure × Text :=
  (.source file.path.text reason, file.path.text)

inductive Read (d : Dialect) (w : Workspace) (file : SourceFile) : Prop
  | fault (reason : Text) (fault : d.faultAt w file = some reason)
      (fails : d.readAt w file = .error (.source file.path.text reason))
  | found (found : Option Namespace) (fault : d.faultAt w file = none)
      (reads : d.readAt w file = .ok found)

theorem read_of_copes {file : SourceFile} (h : d.Copes w file) : d.Read w file := by
  cases htext : w.tree.readText w.cwd file.path with
  | error e =>
      refine .fault e.message (by simp only [faultAt, htext]) ?_
      simp only [readAt, htext, namespaceOfText]
  | ok text =>
      have hdigests := h text htext
      unfold Digests at hdigests
      cases hforms : Form.readAll d.features text with
      | error e =>
          rw [hforms] at hdigests
          refine .fault e.message (by simp only [faultAt, htext, hforms]) ?_
          simp only [readAt, htext, namespaceOfText, hforms, hdigests, if_true]
      | ok forms =>
          rw [hforms] at hdigests
          obtain ⟨found, hfound, -⟩ :=
            (Definition.needs_ofForms d.macros file.relativeName forms).gives hdigests
          refine .found found (by simp only [faultAt, htext, hforms]) ?_
          simp only [readAt, htext, namespaceOfText, hforms, hfound]

theorem readAt_strays {file : SourceFile} (h : ¬d.Copes w file) :
    ∃ f, d.readAt w file = .error f ∧ f.isFatal = false := by
  unfold Copes at h
  push Not at h
  obtain ⟨text, htext, hdigests⟩ := h
  unfold Digests at hdigests
  cases hforms : Form.readAll d.features text with
  | error e =>
      rw [hforms] at hdigests
      refine ⟨.read e, ?_, rfl⟩
      simp only [readAt, htext, namespaceOfText, hforms, hdigests, if_false]
  | ok forms =>
      rw [hforms] at hdigests
      simp only [readAt, htext, namespaceOfText, hforms]
      exact (Definition.needs_ofForms d.macros file.relativeName forms).strays hdigests

def failuresAt (d : Dialect) (w : Workspace) (file : SourceFile) : List (Failure × Text) :=
  (d.faultAt w file).toList.map (failureOf file)

theorem handsOver_readFile {file : SourceFile} (h : d.Copes w file)
    (unlogged : ∀ place, w.tree.place w.cwd file.path = .ok place → ¬w.LogsTo place) :
    Action.HandsOver w (d.readFile .handOver file) (d.recordAt w file).toList
      (d.failuresAt w file) := by
  rw [← List.nil_append (d.failuresAt w file)]
  refine Action.handsOver_bind (Action.handsOver_tryReadText unlogged) ?_
  have hread : d.namespaceOfText file (w.tree.readText w.cwd file.path) = d.readAt w file := rfl
  rw [hread]
  cases read_of_copes h with
  | fault reason hfault hfails =>
      simp only [recordAt, failuresAt, hfault, hfails]
      exact Action.handsOver_map (Action.handsOver_handle _ _) fun _ => []
  | found found hfault hreads =>
      simp only [recordAt_eq hreads, failuresAt, hfault, hreads]
      cases found with
      | some ns => exact Action.handsOver_pure _
      | none => exact Action.handsOver_map (Action.handsOver_logAs _ _ _) fun _ => []

theorem strays_readFile {file : SourceFile} (h : ¬d.Copes w file)
    (unlogged : ∀ place, w.tree.place w.cwd file.path = .ok place → ¬w.LogsTo place) :
    Action.Strays w (d.readFile .handOver file) := by
  refine (Action.handsOver_tryReadText unlogged).strays_bind ?_
  obtain ⟨f, hread, hf⟩ := readAt_strays h
  rw [readAt] at hread
  rw [hread]
  cases f with
  | source path reason => cases hf
  | _ => exact Action.strays_fail hf

/-! ## All files -/

/-- The failures that a handler is given for the files under the roots, in order. -/
def failures (d : Dialect) (w : Workspace) (roots : List Path) : List (Failure × Text) :=
  roots.flatMap fun root => (d.filesAt w root).flatMap (d.failuresAt w)

theorem handsOver_readFiles {files : List SourceFile} (copes : ∀ file ∈ files, d.Copes w file)
    (unlogged : ∀ file ∈ files, ∀ place, w.tree.place w.cwd file.path = .ok place →
      ¬w.LogsTo place) :
    Action.HandsOver w (d.readFiles .handOver files) (files.filterMap (d.recordAt w))
      (files.flatMap (d.failuresAt w)) := by
  induction files with
  | nil => exact Action.handsOver_pure _
  | cons file files ih =>
      obtain ⟨hcopes, hrest⟩ := List.forall_mem_cons.1 copes
      obtain ⟨hplace, hplaces⟩ := List.forall_mem_cons.1 unlogged
      rw [filterMap_recordAt_cons, List.flatMap_cons]
      refine Action.handsOver_bind (handsOver_readFile hcopes hplace) ?_
      exact Action.handsOver_map (ih hrest hplaces) _

theorem strays_readFiles {files : List SourceFile} (h : ¬∀ file ∈ files, d.Copes w file)
    (unlogged : ∀ file ∈ files, ∀ place, w.tree.place w.cwd file.path = .ok place →
      ¬w.LogsTo place) :
    Action.Strays w (d.readFiles .handOver files) := by
  induction files with
  | nil => exact absurd nofun h
  | cons file files ih =>
      obtain ⟨hplace, hplaces⟩ := List.forall_mem_cons.1 unlogged
      by_cases hfile : d.Copes w file
      · have hrest : ¬∀ file ∈ files, d.Copes w file := fun hfiles =>
          h (List.forall_mem_cons.2 ⟨hfile, hfiles⟩)
        exact (handsOver_readFile hfile hplace).strays_bind ((ih hrest hplaces).bind _)
      · exact (strays_readFile hfile hplace).bind _

/-- The roots exist, and no source under them is a log file. -/
structure Present (d : Dialect) (w : Workspace) (roots : List Path) : Prop where
  existing : ∀ root ∈ roots, w.tree.isFile w.cwd root = true ∨ w.tree.isDirectory w.cwd root = true
  unlogged : ∀ root ∈ roots, ∀ file ∈ d.filesAt w root, ∀ place,
    w.tree.place w.cwd file.path = .ok place → ¬w.LogsTo place

theorem Present.tail {root : Path} {roots : List Path} (h : d.Present w (root :: roots)) :
    d.Present w roots :=
  ⟨fun r hr => h.existing r (List.mem_cons_of_mem _ hr),
    fun r hr => h.unlogged r (List.mem_cons_of_mem _ hr)⟩

theorem handsOver_sources {root : Path}
    (h : w.tree.isFile w.cwd root = true ∨ w.tree.isDirectory w.cwd root = true) :
    Action.HandsOver w
      (Action.workspace >>= fun w => Action.ofExcept (d.sourceFiles w.tree w.cwd root))
      (d.filesAt w root) [] := by
  intro w' hw
  refine ⟨w', ?_, hw, (List.append_nil _).symm⟩
  obtain ⟨files, hfiles⟩ := exists_sourceFiles_of_exists (d := d) h
  have hsame := (sourceFiles_of_alike hw root).trans hfiles
  rw [Action.bind_of_ok (show Action.workspace w' = (.ok w', w') from rfl), Action.ofExcept, hsame,
    filesAt, hfiles]
  rfl

theorem readRoots_cons (r : Recovery) (root : Path) (roots : List Path) :
    d.readRoots r (root :: roots) =
      (Action.workspace >>= fun w => Action.ofExcept (d.sourceFiles w.tree w.cwd root)) >>=
        fun files => d.readFiles r files >>= fun nss =>
          d.readRoots r roots >>= fun more => pure (nss ++ more) := by
  rw [bind_assoc]
  rfl

theorem handsOver_readRoots {roots : List Path} (h : d.Present w roots)
    (copes : ∀ root ∈ roots, ∀ file ∈ d.filesAt w root, d.Copes w file) :
    Action.HandsOver w (d.readRoots .handOver roots) (d.records w roots)
      (d.failures w roots) := by
  induction roots with
  | nil => exact Action.handsOver_pure _
  | cons root roots ih =>
      obtain ⟨hfirst, hrest⟩ := List.forall_mem_cons.1 copes
      rw [readRoots_cons, records, failures, List.flatMap_cons, List.flatMap_cons]
      rw [← List.nil_append (_ ++ _ : List (Failure × Text))]
      refine Action.handsOver_bind (handsOver_sources (h.existing root (by simp))) ?_
      refine Action.handsOver_bind (handsOver_readFiles hfirst (h.unlogged root (by simp))) ?_
      exact Action.handsOver_map (ih h.tail hrest) _

theorem strays_readRoots {roots : List Path} (h : d.Present w roots)
    (strays : ¬∀ root ∈ roots, ∀ file ∈ d.filesAt w root, d.Copes w file) :
    Action.Strays w (d.readRoots .handOver roots) := by
  induction roots with
  | nil => exact absurd nofun strays
  | cons root roots ih =>
      rw [readRoots_cons]
      refine (handsOver_sources (h.existing root (by simp))).strays_bind ?_
      have hplaces := h.unlogged root (by simp)
      by_cases hfirst : ∀ file ∈ d.filesAt w root, d.Copes w file
      · have hrest : ¬∀ root ∈ roots, ∀ file ∈ d.filesAt w root, d.Copes w file := fun hroots =>
          strays (List.forall_mem_cons.2 ⟨hfirst, hroots⟩)
        exact (handsOver_readFiles hfirst hplaces).strays_bind ((ih h.tail hrest).bind _)
      · exact (strays_readFiles hfirst hplaces).bind _

/-- A pass with a handler over roots that exist ends well just if it can cope with each file.
Then it has the records of all files that can be read, and each of the others has been handed
over with its path.  Otherwise it is ended by a failure that is none of a source. -/
theorem read_with_handler {d : Dialect} {w : Workspace} {roots : List Path}
    (present : d.Present w roots) :
    ((∀ root ∈ roots, ∀ file ∈ d.filesAt w root, d.Copes w file) →
      ∃ w', d.read .handOver roots w = (.ok (d.records w roots), w') ∧
        w'.handled = w.handled ++ d.failures w roots) ∧
    ((∃ root ∈ roots, ∃ file ∈ d.filesAt w root, ¬d.Copes w file) →
      ∃ f w', d.read .handOver roots w = (.error f, w') ∧ f.isFatal = false) := by
  constructor
  · intro copes
    have hroots := handsOver_readRoots present copes
    have hread : Action.HandsOver w (d.read .handOver roots) (d.records w roots)
        (d.failures w roots ++ []) :=
      Action.handsOver_bind hroots (Action.handsOver_map (Action.handsOver_logAs _ _ _) _)
    obtain ⟨w', hw', -, hhandled⟩ := hread w (.refl w)
    exact ⟨w', hw', by rwa [List.append_nil] at hhandled⟩
  · rintro ⟨root, hroot, file, hfile, hcopes⟩
    have hstrays := strays_readRoots present fun h => hcopes (h root hroot file hfile)
    exact hstrays.bind _ w (.refl w)

/-! ### Examples -/

theorem copes_of_isFatal {file : SourceFile}
    (h : ∀ f, d.readAt w file = .error f → f.isFatal = true) : d.Copes w file := by
  by_contra hcopes
  obtain ⟨f, hread, hf⟩ := readAt_strays hcopes
  rw [h f hread] at hf
  cases hf

def bytesOf (t : Text) : Bytes := t.map fun c => c.toNat.toUInt8

/-- A source between one that is no text and one that is not closed. -/
def mixedFiles : Workspace :=
  { cwd := ⟨true, []⟩,
    tree := ⟨[(["a.clj"], .file [0xff]), (["b.clj"], .file (bytesOf "(ns b)")),
      (["c.clj"], .file (bytesOf "(ns c"))]⟩ }

def mixedRoots : List Path := [Path.ofText "a.clj", Path.ofText "b.clj", Path.ofText "c.clj"]

theorem present_mixedFiles : clojure.Present mixedFiles mixedRoots where
  existing := by decide +kernel
  unlogged := by
    rintro root hroot file hfile place hplace ⟨l, hl, -⟩
    cases hl

def mixedFailures : List (Failure × Text) :=
  [(.source "a.clj" "'utf-8' codec can't decode byte 0xff in position 0: invalid start byte",
      "a.clj"),
    (.source "c.clj" "EOF while reading, starting at line 1 (line 1)", "c.clj")]

/-- The source is read, and both others are handed over. -/
theorem read_mixedFiles_with_handler :
    ∃ nss w', clojure.read .handOver mixedRoots mixedFiles = (.ok nss, w') ∧
      nss.map Namespace.name = [some (Text.ofString "b")] ∧ w'.handled = mixedFailures := by
  have hfatal : ∀ root ∈ mixedRoots, ∀ file ∈ clojure.filesAt mixedFiles root,
      (match clojure.readAt mixedFiles file with
        | .error f => f.isFatal
        | .ok _ => true) = true := by decide +kernel
  have hcopes : ∀ root ∈ mixedRoots, ∀ file ∈ clojure.filesAt mixedFiles root,
      clojure.Copes mixedFiles file := by
    intro root hroot file hfile
    refine copes_of_isFatal fun f hf => ?_
    have hread := hfatal root hroot file hfile
    rwa [hf] at hread
  obtain ⟨w', hread, hhandled⟩ := (read_with_handler present_mixedFiles).1 hcopes
  have hresult : (clojure.records mixedFiles mixedRoots).map Namespace.name =
      [some (Text.ofString "b")] ∧
        clojure.failures mixedFiles mixedRoots = mixedFailures := by decide +kernel
  exact ⟨_, w', hread, hresult.1, hhandled.trans hresult.2⟩

/-- A pattern in metadata with a set that is not closed. -/
def unclosedPattern : Workspace :=
  { cwd := ⟨true, []⟩,
    tree := ⟨[(["src"], .directory),
      (["src", "a.clj"], .file (bytesOf "(ns a \x7b:pattern #\"[\"\x7d)"))]⟩ }

/-- The pass fails with the fault of the pattern, and the handler is given nothing. -/
theorem handler_bypassed_by_pattern :
    unclosedPattern.tree.isDirectory unclosedPattern.cwd (Path.ofText "src") = true ∧
      ∃ f w', clojure.read .handOver [Path.ofText "src"] unclosedPattern =
          (.error (.regex f), w') ∧
        f.message = "unterminated character set at position 0" ∧ w'.handled = [] := by
  have hfails : (clojure.read .handOver [Path.ofText "src"] unclosedPattern).1.map (fun _ => ()) =
      .error (.regex (.within .unterminatedSet "[" 0)) := by decide +kernel
  refine ⟨by decide +kernel, _, _, Prod.ext (eq_error_of_map_eq_error hfails) rfl, ?_⟩
  decide +kernel

end Dialect

end Docsmith
