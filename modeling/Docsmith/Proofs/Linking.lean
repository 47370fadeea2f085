import Docsmith.Proofs.Contents
import Docsmith.Proofs.DataFile
import Docsmith.Proofs.Escaping
import Docsmith.Proofs.Lookups

/-!
# When the commit is looked up

A variable that is shown and has a path gets a link, and a link needs the commit if links lead to
a place that names it.  The first link of a write that needs the commit looks it up.  A commit
that was found is in all links from then on; a failure ends the write, and the next one that
needs the commit tries again.
-/

namespace Docsmith

/-! ## Which links are made -/

def Subject.linked : Subject → List VarFacts
  | .ofNamespace ns => ns.visible.map Var.facts
  | .index | .ofDocument _ => []

namespace Writer

/-- The variables for which a link is made, if they have paths: members have links in data and
not on pages. -/
def linked : Writer → Site → List VarFacts
  | .html, s => s.visible.flatMap fun ns => ns.visible.map Var.facts
  | .json, s => s.visible.flatMap fun ns => ns.visible.flatMap Var.shown

def needsCommit (writer : Writer) (s : Site) : Bool :=
  s.options.linksCommit && (writer.linked s).any fun f => f.path.truthy

end Writer

theorem unasking_linkBase {o : Options} {uri : Text}
    (h : Text.includes commitPlaceholder uri = false) : Action.Unasking (linkBase o uri) := by
  rw [linkBase, if_neg (by simp [h])]
  exact Action.unasking_pure uri

namespace Script

open Docsmith.Action Docsmith.Writer

variable {σ : Script}

theorem asks_linkBase {uri : Text} (h : Text.includes commitPlaceholder uri = true)
    (w : Workspace) : σ.Asks true (linkBase σ.options uri) w := by
  have hlookup : σ.Asks true (lookUpCommit σ.options.commit) w := fun m hfollows =>
    hfollows.lookUpCommit
  rw [linkBase, if_pos h]
  exact hlookup.bind_unasking fun _ => (unasking_ofExcept _).bind fun _ => unasking_pure _

theorem links_sourceUri (f : VarFacts) (w : Workspace) :
    σ.Links f.path.truthy (sourceUri σ.options f) w := by
  unfold sourceUri
  cases huri : σ.options.srcDirUri with
  | none =>
      have unlinked : σ.options.linksCommit = false := by simp [Options.linksCommit, huri]
      exact links_of_unlinked unlinked (unasking_pure _)
  | some uri =>
      have hlinks : σ.options.linksCommit = Text.includes commitPlaceholder uri := by
        simp [Options.linksCommit, huri]
      have hrest (base : Text) : Unasking (do
          let path ← Action.ofExcept (Options.toText f.path)
          let anchor ← Action.ofExcept (lineAnchor σ.options f.line)
          return some (base ++ path ++ anchor)) :=
        (unasking_ofExcept _).bind fun _ => (unasking_ofExcept _).bind fun _ => unasking_pure _
      dsimp only
      by_cases unlinked : (uri.isEmpty || !f.path.truthy) = true
      · rw [if_pos unlinked]
        rcases Bool.or_eq_true_iff.1 unlinked with hempty | hpath
        · rw [List.isEmpty_iff.1 hempty] at hlinks
          exact links_of_unlinked hlinks (unasking_pure _)
        · rw [show f.path.truthy = false by simpa using hpath]
          exact links_pure none w
      · rw [if_neg unlinked]
        simp only [Bool.or_eq_true, not_or, Bool.not_eq_true, Bool.not_eq_false'] at unlinked
        rw [unlinked.2]
        cases hnames : Text.includes commitPlaceholder uri with
        | false =>
            refine links_of_unlinked (hlinks.trans hnames) ?_
            exact (unasking_linkBase hnames).bind hrest
        | true =>
            refine ⟨?_, nofun⟩
            rw [hlinks, hnames]
            exact (asks_linkBase hnames w).bind_unasking hrest

theorem links_pageEntries (vs : List Var) (w : Workspace) :
    σ.Links ((vs.map Var.facts).any fun f => f.path.truthy) (pageEntries σ.options vs) w := by
  induction vs generalizing w with
  | nil => exact links_pure [] w
  | cons v vs ih =>
      rw [List.map_cons, List.any_cons]
      exact (links_sourceUri v.facts w).bind fun _ mid _ => (ih mid).bind_pure _

mutual
theorem links_varData : (v : Var) → (w : Workspace) →
    σ.Links (v.shown.any fun f => f.path.truthy) (varData σ.options v) w
  | .mk f ms, w => by
      rw [Var.shown, List.any_cons, varData]
      exact (links_sourceUri f w).bind fun _ mid _ => (links_membersData ms mid).bind_pure _

theorem links_membersData : (vs : List Var) → (w : Workspace) →
    σ.Links ((Var.shownAll vs).any fun f => f.path.truthy) (membersData σ.options vs) w
  | [], w => links_pure [] w
  | v :: vs, w => by
      rw [Var.shownAll, membersData]
      split
      · exact links_membersData vs w
      · rw [List.any_append]
        exact (links_varData v w).bind fun _ mid _ => (links_membersData vs mid).bind_pure _
end

theorem links_varsData (vs : List Var) (w : Workspace) :
    σ.Links ((vs.flatMap Var.shown).any fun f => f.path.truthy) (varsData σ.options vs) w := by
  induction vs generalizing w with
  | nil => exact links_pure [] w
  | cons v vs ih =>
      rw [List.flatMap_cons, List.any_append]
      exact (links_varData v w).bind fun _ mid _ => (ih mid).bind_pure _

theorem links_namespacesData (nss : List Namespace) (w : Workspace) :
    σ.Links ((nss.flatMap fun ns => ns.visible.flatMap Var.shown).any fun f => f.path.truthy)
      (namespacesData σ.options nss) w := by
  induction nss generalizing w with
  | nil => exact links_pure [] w
  | cons ns nss ih =>
      rw [List.flatMap_cons, List.any_append]
      exact ((links_varsData ns.visible w).bind_pure _).bind fun _ mid _ => (ih mid).bind_pure _

theorem links_draft {s : Site} (hs : s.options = σ.options) (p : Subject) (w : Workspace) :
    σ.Links (p.linked.any fun f => f.path.truthy) (draft s p) w := by
  cases p with
  | index => exact links_pure _ w
  | ofNamespace ns =>
      rw [draft, hs]
      exact (links_pageEntries ns.visible w).bind_pure _
  | ofDocument d => exact links_pure _ w

end Script

/-! ## Writes -/

namespace Writer

open Docsmith.Action

theorem unasking_writePage (target : Path) (page : Markup) : Unasking (writePage target page) :=
  (unasking_ofExcept _).bind fun _ => unasking_writeText _ _

def createsPages (s : Site) : List Subject → Workspace → Bool
  | [], _ => true
  | p :: ps, w =>
      match draft s p w with
      | (.error _, _) => true
      | (.ok page, mid) =>
          match writePage (p.path s.options) page mid with
          | (.error _, _) => false
          | (.ok (), w') => createsPages s ps w'

def creates : Writer → Site → Workspace → Bool
  | .html, s, w =>
      match ensureDirectory s.options.outputDir w with
      | (.error _, _) => false
      | (.ok (), w') => createsPages s s.subjects w'
  | .json, _, _ => true

end Writer

namespace Script

open Docsmith.Action Docsmith.Writer

variable {σ : Script} {s : Site}

theorem links_writeSubjects (hs : s.options = σ.options) {ps : List Subject} {w : Workspace}
    (h : createsPages s ps w = true) :
    σ.Links ((ps.flatMap Subject.linked).any fun f => f.path.truthy)
      (ps.forM (writeSubject s)) w := by
  induction ps generalizing w with
  | nil => exact links_pure () w
  | cons p ps ih =>
      -- As long as no link needs the commit no page fails, and so the first that does is reached.
      have hfirst : σ.Links (p.linked.any fun f => f.path.truthy) (writeSubject s p) w := by
        rw [writeSubject_eq]
        refine (links_draft hs p w).before fun page mid hdraft => ?_
        refine links_of_unasking (unasking_writePage _ _) ?_
        simp only [createsPages, hdraft] at h
        split at h
        · cases h
        · exact ⟨_, _, ‹_›⟩
      rw [List.flatMap_cons, List.any_append]
      refine hfirst.bind fun _ done hdone => ih ?_
      rw [writeSubject_eq] at hdone
      obtain ⟨page, mid, hdraft, hpage⟩ := exists_of_bind hdone
      simpa only [createsPages, hdraft, hpage] using h

theorem flatMap_linked_subjects (s : Site) :
    s.subjects.flatMap Subject.linked = Writer.html.linked s := by
  simp [Site.subjects, Subject.linked, Writer.linked, List.flatMap_map]

theorem asks_writeHtml (hs : s.options = σ.options) {w : Workspace}
    (h : Writer.html.creates s w = true) :
    σ.Asks (Writer.html.needsCommit s) (writeHtml s) w := by
  rw [creates] at h
  split at h
  case h_1 => cases h
  case h_2 begun hbegun =>
    have hlinks : σ.Links (false || (s.subjects.flatMap Subject.linked).any fun f => f.path.truthy)
        (writeHtml s) w := by
      rw [writeHtml_eq]
      refine (links_of_unasking (unasking_change _) ⟨_, _, hbegun⟩).bind fun _ mid hmid => ?_
      obtain rfl : begun = mid := congrArg Prod.snd (hbegun.symm.trans hmid)
      refine (links_writeSubjects hs h).before fun _ done _ => ?_
      exact links_of_unasking (unasking_logAs _ _ _) ⟨_, _, rfl⟩
    rw [Bool.false_or, flatMap_linked_subjects] at hlinks
    rw [needsCommit, hs]
    exact hlinks.asks

theorem asks_writeJson (hs : s.options = σ.options) (w : Workspace) :
    σ.Asks (Writer.json.needsCommit s) (writeJson s) w := by
  have hdata : σ.Links ((Writer.json.linked s).any fun f => f.path.truthy) (siteData s) w := by
    rw [siteData, hs]
    exact (links_namespacesData s.visible w).bind_pure _
  rw [needsCommit, hs]
  refine hdata.asks.bind_unasking fun data => ?_
  refine (unasking_change _).bind fun _ => (unasking_ofExcept _).bind fun text => ?_
  exact (unasking_writeText _ _).bind fun _ => unasking_logAs _ _ _

theorem asks_write {writer : Writer} (hs : s.options = σ.options) {w : Workspace}
    (h : writer.creates s w = true) : σ.Asks (writer.needsCommit s) (writer.write s) w := by
  cases writer with
  | html => exact asks_writeHtml hs h
  | json => exact asks_writeJson hs w

end Script

/-! ## Writes one after the other -/

namespace Writer

open Docsmith.Action

def writeAll (jobs : List (Writer × Site)) (w : Workspace) : Workspace :=
  jobs.foldl (fun w job => (job.1.write job.2 w).2) w

def createsAll : List (Writer × Site) → Workspace → Bool
  | [], _ => true
  | (writer, s) :: jobs, w => writer.creates s w && createsAll jobs (writer.write s w).2

theorem createsAll_concat (jobs : List (Writer × Site)) (writer : Writer) (s : Site)
    (w : Workspace) :
    createsAll (jobs ++ [(writer, s)]) w =
      (createsAll jobs w && writer.creates s (writeAll jobs w)) := by
  induction jobs generalizing w with
  | nil => simp [createsAll, writeAll]
  | cons job jobs ih =>
      rw [List.cons_append, createsAll, createsAll, ih, Bool.and_assoc]
      rfl

theorem exists_follows_writeAll {σ : Script} {jobs : List (Writer × Site)} {w : Workspace}
    {m : Lookups} (same : ∀ job ∈ jobs, job.2.options = σ.options)
    (h : createsAll jobs w = true) (hsound : m.Sound σ.outcomes) (hfollows : σ.Follows w m) :
    ∃ m' : Lookups, m'.Sound σ.outcomes ∧ σ.Follows (writeAll jobs w) m' := by
  induction jobs generalizing w m with
  | nil => exact ⟨m, hsound, hfollows⟩
  | cons job jobs ih =>
      obtain ⟨hsame, same⟩ := List.forall_mem_cons.1 same
      obtain ⟨hcreates, h⟩ := Bool.and_eq_true_iff.1 h
      obtain ⟨m', hsound', hfollows'⟩ :=
        (Script.asks_write hsame hcreates).sound hfollows hsound
      exact ih same h hsound' hfollows'

/-- The bytes are those of a file of the site with this commit in the links, or none. -/
def IsOutput (s : Site) (commit : Text) (bytes : Bytes) : Writer → Prop
  | .html => IsPageWith s commit bytes
  | .json => bytes = [] ∨ ∃ text, (s.dataWith commit).json = .ok text ∧
      Utf8.encode text = .ok bytes

theorem prints_writeJson (s : Site) (w : Workspace) :
    Prints (fun commit bytes => Writer.json.IsOutput s commit bytes) (writeJson s) w := by
  have hyields := yields_siteData s
  refine (hyields.prints w).bind fun data looked hdata => ?_
  refine (prints_ensureDirectory _ looked).bind fun _ made hmade => ?_
  refine (prints_ofExcept _ made).bind fun text mid hgiven => ?_
  obtain ⟨tree, -, rfl⟩ := of_change hmade
  obtain ⟨htext, rfl⟩ := eq_of_ofExcept hgiven
  refine Prints.bind (prints_writeText (fun _ => .inl rfl) fun last hlast bytes hbytes => ?_)
    fun _ done _ => prints_logAs _ _ _ done
  rw [hyields.result hdata fun v hv => hlast v hv] at htext
  exact .inr ⟨text, htext, hbytes⟩

theorem prints_write (writer : Writer) (s : Site) (w : Workspace) :
    Prints (fun commit bytes => writer.IsOutput s commit bytes) (writer.write s) w := by
  cases writer with
  | html => exact prints_writeHtml s w
  | json => exact prints_writeJson s w

/-- The commit is looked up when a link needs it and it is not yet known.  After any writes with
options whose commit is still to be looked up, the program has been called some number of times,
and the next write calls it just if it makes a link that names the commit and no call has found
it, and then once.  If that call fails, so does the write, and nothing is kept.  Whatever is
written once the commit is known has that commit in its links. -/
theorem write_looks_up_commit_once {o : Options} {directory : Path} {outcomes : List Outcome}
    {start : Workspace} (pending : start.commit.getD o.commit = .pending directory)
    (scripted : start.runner = ⟨some outcomes, []⟩) {jobs : List (Writer × Site)}
    {writer : Writer} {s : Site} (same : ∀ job ∈ jobs ++ [(writer, s)], job.2.options = o)
    (created : createsAll (jobs ++ [(writer, s)]) start = true)
    {result : Except Failure Unit} {w' : Workspace}
    (h : writer.write s (writeAll jobs start) = (result, w')) :
    ∃ n, (writeAll jobs start).runner = .called outcomes directory n ∧
      Script.Step ⟨o, directory, outcomes⟩ (writer.needsCommit s) n (writeAll jobs start)
        (result, w') ∧
      ∀ commit, w'.commit = some (.known (.str commit)) →
        ∀ place bytes, ¬(writeAll jobs start).LogsTo place →
          w'.tree.entry? place = some (.file bytes) →
          (writeAll jobs start).tree.entry? place = some (.file bytes) ∨
            writer.IsOutput s commit bytes := by
  obtain ⟨same, hsame⟩ := List.forall_mem_append.1 same
  rw [createsAll_concat, Bool.and_eq_true_iff] at created
  have hstart : Script.Follows ⟨o, directory, outcomes⟩ start ⟨0, none⟩ :=
    ⟨scripted, fun _ => pending, nofun⟩
  obtain ⟨m, hsound, hfollows⟩ :=
    exists_follows_writeAll same created.1 (Lookups.sound_none _) hstart
  refine ⟨m.calls, hfollows.runner, ?_, fun commit hcommit => ?_⟩
  · rw [← h]
    exact (Script.asks_write (hsame _ List.mem_cons_self) created.2).step hfollows hsound
  · have hfills := (prints_write writer s (writeAll jobs start)).fills (.refl _)
    rw [h, Workspace.commitText, hcommit] at hfills
    exact hfills.files

def pendingOptions : Options :=
  { root := ⟨true, []⟩, commit := .pending ⟨true, []⟩, srcDirUri := some "u/\x7bgit-commit\x7d/" }

def memberSite : Site :=
  { options := pendingOptions,
    namespaces := [{
      name := some "a",
      publics := [.mk { name := "b" } [.mk { name := "c", path := .str "a.clj" } []]] }],
    documents := [] }

/-- The program is not there at first. -/
def lateProgram : List Outcome := [.notRun "no program", .finished ⟨0, "abc\n", []⟩]

def earlyWrites : List (Writer × Site) := [(.html, memberSite), (.json, memberSite)]

def triedWorkspace : Workspace :=
  writeAll earlyWrites { emptyWorkspace with runner := ⟨some lateProgram, []⟩ }

/-- Pages do not need the commit.  Data does: the first time it is not found, and the second time
it is. -/
theorem write_looks_up_commit_once_memberSite :
    triedWorkspace.runner = .called lateProgram ⟨true, []⟩ 1 ∧
      (Writer.json.write memberSite triedWorkspace).2.runner =
        .called lateProgram ⟨true, []⟩ 2 ∧
      (Writer.json.write memberSite triedWorkspace).2.commit = some (.known (.str "abc")) := by
  obtain ⟨htried, created⟩ : triedWorkspace.runner = .called lateProgram ⟨true, []⟩ 1 ∧
      createsAll (earlyWrites ++ [(.json, memberSite)])
        { emptyWorkspace with runner := ⟨some lateProgram, []⟩ } = true := by
    decide +kernel
  have same : ∀ job ∈ earlyWrites ++ [(.json, memberSite)], job.2.options = pendingOptions := by
    simp [earlyWrites, memberSite]
  have pending : Option.getD none pendingOptions.commit = .pending ⟨true, []⟩ := rfl
  generalize hwrite : Writer.json.write memberSite triedWorkspace = r
  obtain ⟨result, w'⟩ := r
  obtain ⟨n, hn, hstep, -⟩ := write_looks_up_commit_once pending rfl same created hwrite
  obtain rfl : n = 1 := by
    have hcalls := congrArg (fun r => r.calls.length) (htried.symm.trans hn)
    simpa [Runner.called] using hcalls.symm
  have hfailed : ∀ i < 1, ∀ text, Runner.answer lateProgram i ≠ .ok text := by
    intro i hi text
    obtain rfl : i = 0 := by omega
    simp [Runner.answer, lateProgram, Outcome.commit]
  have hneeded : Writer.json.needsCommit memberSite = true := by decide +kernel
  exact ⟨htried, hstep.succeeded hfailed hneeded _ (by decide +kernel)⟩

end Writer

end Docsmith
