import Docsmith.Proofs.Contents
import Docsmith.Proofs.DataFile

/-!
# All or nothing

A run that writes no pages does all that can fail before it writes its one file: it reads, looks
up the commit and puts the data into a text.  The text can always be encoded, so that a file that
has been opened is written in full.
-/

namespace Docsmith

/-! ## What files hold -/

namespace FileTree

variable {written : List Text → Prop} {t t' : FileTree}

def content? (t : FileTree) (place : List Text) : Option Bytes :=
  match t.entry? place with
  | some (.file bytes) => some bytes
  | _ => none

theorem Evolves.content?_eq (h : Evolves written t t') {place : List Text}
    (hplace : ¬written place) : t'.content? place = t.content? place := by
  rcases h place with heq | ⟨hnone, hdirectory⟩ | ⟨hwritten, -⟩
  · rw [content?, content?, heq]
  · rw [content?, content?, hnone, hdirectory]
  · exact absurd hwritten hplace

end FileTree

theorem Workspace.Changes.mono {written written' : List Text → Prop} {w w' : Workspace}
    (h : w.Changes written w') (hmono : ∀ place, written place → written' place) :
    w.Changes written' w' where
  cwd := h.cwd
  logging := h.logging
  tree := h.tree.mono fun place => Or.imp_right (hmono place)

/-! ## Actions that fail before they write -/

namespace Action

variable {α β : Type} {cwd : Path} {written : List Text → Prop}

abbrev nowhere : List Text → Prop := fun _ => False

structure Atomic (cwd : Path) (written : List Text → Prop) (x : Action α) : Prop where
  confined : Confined cwd written x
  clean (w : Workspace) (hw : w.cwd = cwd) {f : Failure} {w' : Workspace}
    (h : x w = (.error f, w')) : w.Changes nowhere w'

theorem Confined.atomic {x : Action α} (h : Confined cwd nowhere x) : Atomic cwd written x where
  confined w hw := (h w hw).mono fun _ => False.elim
  clean w hw f w' hx := by
    have hchanges := h w hw
    rw [hx] at hchanges
    exact hchanges

theorem Atomic.after {x : Action α} {next : α → Action β} (hx : Confined cwd nowhere x)
    (hnext : ∀ a, (∃ w w', x w = (.ok a, w')) → Atomic cwd written (next a)) :
    Atomic cwd written (x >>= next) where
  confined w hw := changes_bind (hx.atomic.confined w hw) fun a mid h hcwd =>
    (hnext a ⟨w, mid, h⟩).confined mid (hcwd.trans hw)
  clean w hw f w' h := by
    have hchanges := hx w hw
    rw [bind_apply] at h
    match hrun : x w with
    | (.error e, mid) =>
        rw [hrun] at h hchanges
        cases h
        exact hchanges
    | (.ok a, mid) =>
        rw [hrun] at h hchanges
        exact hchanges.trans ((hnext a ⟨w, mid, hrun⟩).clean mid (hchanges.cwd.trans hw) h)

theorem Atomic.before {x : Action α} {next : α → Action β} (hx : Atomic cwd written x)
    (hnext : ∀ a, Confined cwd written (next a))
    (sure : ∀ a w, ∃ b w', next a w = (.ok b, w')) : Atomic cwd written (x >>= next) where
  confined := confined_bind hx.confined hnext
  clean w hw f w' h := by
    rw [bind_apply] at h
    match hrun : x w with
    | (.error e, mid) =>
        rw [hrun] at h
        cases h
        exact hx.clean w hw hrun
    | (.ok a, mid) =>
        rw [hrun] at h
        obtain ⟨b, last, hdone⟩ := sure a mid
        cases hdone.symm.trans h

theorem atomic_writeText {p : Path} {t : Text} (hp : written (Path.resolve cwd p).names)
    (ht : t.Encodable) : Atomic cwd written (writeText p t) where
  confined := confined_writeText hp t
  clean w hw f w' h := by
    match hopen : change (fun cwd tree => tree.write cwd p []) w with
    | (.ok (), opened) =>
        obtain ⟨done, hdone⟩ := Writer.exists_writeText hopen ht
        cases hdone.symm.trans h
    | (.error e, mid) =>
        have hstill : w = mid := by
          unfold change at hopen
          split at hopen
          · cases hopen
          · exact congrArg Prod.snd hopen
        rw [writeText, bind_apply, hopen] at h
        cases h
        exact hstill ▸ .refl w

end Action

open Docsmith.Action

/-! ## Runs that write data -/

variable {cwd : Path}

theorem Writer.atomic_writeJson (s : Site) :
    Atomic cwd (fun place => place = s.options.dataPlace cwd) (writeJson s) := by
  have hdata : Confined cwd nowhere (siteData s) :=
    confined_bind (confined_namespacesData _ _) fun _ => confined_pure _
  refine .after hdata fun data _ => ?_
  refine .after (confined_ensureDirectory _) fun _ _ => ?_
  refine .after (confined_ofExcept _) fun text htext => ?_
  obtain ⟨w, w', htext⟩ := htext
  have hencodable := Value.encodable_of_jsonWithin (eq_of_ofExcept htext).1
  have hwrite : Atomic cwd (fun place => place = s.options.dataPlace cwd)
      (writeText (s.options.outputDir.child dataFile) text) := atomic_writeText rfl hencodable
  exact hwrite.before (fun _ => confined_logAs _ _ _) fun _ w => ⟨(), _, rfl⟩

namespace Run

theorem atomic_generate {o : Options}
    (unpaged : resolveWriter builtInWriters [] (.str o.writer) ≠ .ok .html) :
    Atomic cwd (fun place => place = o.dataPlace cwd) (generate o) := by
  refine .after (confined_startCommit _) fun _ _ => ?_
  refine .after (confined_ofExcept _) fun writer hwriter => ?_
  obtain ⟨w, w', hwriter⟩ := hwriter
  have hjson : writer = .json := by
    cases writer with
    | html => exact absurd (eq_of_ofExcept hwriter).1 unpaged
    | json => rfl
  subst hjson
  refine .after (confined_logAs _ _ _) fun _ _ => ?_
  refine .after (confined_readNamespaces o) fun namespaces _ => ?_
  refine .after (confined_readDocuments o) fun documents _ => ?_
  refine (Writer.atomic_writeJson ⟨o, namespaces, documents⟩).before (fun _ => ?_)
    fun _ w => ⟨_, _, rfl⟩
  exact confined_bind (confined_logAs _ _ _) fun _ => confined_pure _

theorem stored_of_generate {o : Options} {w w' : Workspace} {site : Site}
    (h : generate o w = (.ok site, w'))
    (unpaged : resolveWriter builtInWriters [] (.str o.writer) ≠ .ok .html)
    (unlogged : ¬w.LogsTo (o.dataPlace w.cwd)) : site.Stored w.cwd w'.commitText w'.tree := by
  obtain ⟨writer, read, done, r, rfl, hwriter, hread, hwrite, rfl⟩ := exists_of_generate h
  cases writer with
  | html => exact absurd hwriter unpaged
  | json =>
      have hdone := (Writer.atomic_writeJson site).confined read hread.cwd
      rw [show Writer.writeJson site read = (.ok (), done) from hwrite] at hdone
      rw [← hread.logsTo, ← hread.cwd] at unlogged
      have hstored := Writer.stored_of_writeJson hwrite unlogged
      rw [← hdone.logsTo] at unlogged
      rw [← hread.cwd]
      exact hstored.record unlogged r

def generateFrom (given : Value) : Action Site := do
  let w ← Action.workspace
  let o ← Action.ofExcept (Options.ofValue given w.cwd w.cwd w.homes)
  generate o

theorem generateFrom_apply (given : Value) (w : Workspace) :
    generateFrom given w = match Options.ofValue given w.cwd w.cwd w.homes with
      | .ok o => generate o w
      | .error f => (.error f, w) := by
  rw [generateFrom, bind_of_ok (show workspace w = (.ok w, w) from rfl), bind_apply]
  cases Options.ofValue given w.cwd w.cwd w.homes <;> rfl

/-- A run that does not write pages is all or nothing.  If it returns, its data file holds the
data of the site, and every other file holds what it held; if it fails, every file does.  Files
that take the log are left aside. -/
theorem generateFrom_all_or_nothing {given : Value} {w : Workspace}
    (unpaged : ∀ o, Options.ofValue given w.cwd w.cwd w.homes = .ok o →
      resolveWriter builtInWriters [] (.str o.writer) ≠ .ok .html) :
    (∃ site w', generateFrom given w = (.ok site, w') ∧
      Options.ofValue given w.cwd w.cwd w.homes = .ok site.options ∧
      (¬w.LogsTo (site.options.dataPlace w.cwd) →
        site.Stored w.cwd w'.commitText w'.tree) ∧
      ∀ place, ¬w.LogsTo place → place ≠ site.options.dataPlace w.cwd →
        w'.tree.content? place = w.tree.content? place) ∨
    ∃ f w', generateFrom given w = (.error f, w') ∧
      ∀ place, ¬w.LogsTo place → w'.tree.content? place = w.tree.content? place := by
  have hrun := generateFrom_apply given w
  cases hoptions : Options.ofValue given w.cwd w.cwd w.homes with
  | error f =>
      rw [hoptions] at hrun
      exact .inr ⟨f, w, hrun, fun _ _ => rfl⟩
  | ok o =>
      rw [hoptions] at hrun
      have hatomic : Atomic w.cwd _ (generate o) := atomic_generate (unpaged o hoptions)
      match h : generate o w with
      | (.error f, w') =>
          refine .inr ⟨f, w', hrun.trans h, fun place unlogged => ?_⟩
          exact (hatomic.clean w rfl h).tree.content?_eq fun hplace => hplace.elim unlogged id
      | (.ok site, w') =>
          have hchanges := hatomic.confined w rfl
          rw [h] at hchanges
          obtain ⟨_, _, _, _, rfl, -⟩ := exists_of_generate h
          refine .inl ⟨site, w', hrun.trans h, rfl, ?_, fun place unlogged hother => ?_⟩
          · exact stored_of_generate h (unpaged _ hoptions)
          · exact hchanges.tree.content?_eq fun hplace => hplace.elim unlogged hother

/-- A source with a variable, an older data file, and no way to find the commit. -/
def uncommitted : Workspace :=
  let source : Text := "(ns a)(def b 1)"
  { cwd := ⟨true, []⟩,
    tree := ⟨[(["a.clj"], .file (source.map fun c => c.toNat.toUInt8)), (["o"], .directory),
      (["o", "codox.json"], .file [0x31])]⟩,
    runner := ⟨some [.notRun "no program"], []⟩ }

def linkingOptions : Value :=
  .dict [(.str "root_path", .str "/"), (.str "source_paths", .list [.str "a.clj"]),
    (.str "doc_files", .list []), (.str "writer", .str "json"), (.str "output_path", .str "o"),
    (.str "src_dir_uri", .str "u/\x7bgit-commit\x7d/")]

/-- When the commit is looked up all sources have been read, and the older data file stays. -/
theorem generateFrom_uncommitted :
    ∃ w', generateFrom linkingOptions uncommitted =
        (.error (.commit (.notRun "no program")), w') ∧
      ∀ place, w'.tree.content? place = uncommitted.tree.content? place := by
  have unpaged (o : Options)
      (ho : Options.ofValue linkingOptions uncommitted.cwd uncommitted.cwd [] = .ok o) :
      resolveWriter builtInWriters [] (.str o.writer) ≠ .ok .html := by
    have hwriter : (Options.ofValue linkingOptions uncommitted.cwd uncommitted.cwd []).map
        Options.writer = .ok "json" := by decide +kernel
    rw [ho] at hwriter
    rw [show o.writer = "json" from Except.ok.inj hwriter]
    decide
  have unlogged (place : List Text) : ¬uncommitted.LogsTo place := by
    rintro ⟨l, hl, -⟩
    cases hl
  have hfails : (generateFrom linkingOptions uncommitted).1.map (fun _ => ()) =
      .error (.commit (.notRun "no program")) := by decide +kernel
  rcases generateFrom_all_or_nothing unpaged with ⟨site, w', h, -⟩ | ⟨f, w', h, hkeeps⟩
  · rw [h] at hfails
    cases hfails
  · rw [h] at hfails
    obtain rfl : f = .commit (.notRun "no program") := Except.error.inj hfails
    exact ⟨w', h, fun place => hkeeps place (unlogged place)⟩

end Run

end Docsmith
