import Docsmith.Proofs.Pages

/-!
# Lookups of the commit

A lookup that succeeds is kept, and to ask again costs no call; a lookup that fails is not kept,
and to ask again calls the program again.  What a workspace does about the commit follows such
lookups step by step, and an action that asks for it many times asks as if it asked once.
-/

namespace Docsmith

/-! ## Lookups one after the other -/

namespace Runner

def answer (outcomes : List Outcome) (n : Nat) : Except CommitFault Text :=
  (((outcomes[n]?).or outcomes.getLast?).getD (.finished ⟨0, [], []⟩)).commit

def called (outcomes : List Outcome) (directory : Path) (n : Nat) : Runner :=
  ⟨some outcomes, List.replicate n ⟨commitCommand, directory.text⟩⟩

theorem run_called (outcomes : List Outcome) (directory : Path) (n : Nat) (t : FileTree)
    (cwd : Path) :
    (called outcomes directory n).run t cwd directory =
      (answer outcomes n, called outcomes directory (n + 1)) := by
  simp only [run, outcome, called, answer, List.length_replicate, List.replicate_succ']

end Runner

structure Lookups where
  calls : Nat
  found : Option Text

namespace Lookups

variable {outcomes : List Outcome} {m : Lookups}

def ask (outcomes : List Outcome) (m : Lookups) : Except CommitFault Text × Lookups :=
  match m.found with
  | some text => (.ok text, m)
  | none =>
      (Runner.answer outcomes m.calls,
        ⟨m.calls + 1, (Runner.answer outcomes m.calls).toOption⟩)

theorem ask_of_found {text : Text} (h : m.found = some text) :
    ask outcomes m = (.ok text, m) := by
  simp only [ask, h]

theorem ask_of_not_found (outcomes : List Outcome) (h : m.found = none) :
    ask outcomes m = (Runner.answer outcomes m.calls,
      ⟨m.calls + 1, (Runner.answer outcomes m.calls).toOption⟩) := by
  simp only [ask, h]

theorem ask_ask_of_ok {text : Text} (h : (ask outcomes m).1 = .ok text) :
    ask outcomes (ask outcomes m).2 = (.ok text, (ask outcomes m).2) := by
  refine ask_of_found ?_
  cases hfound : m.found with
  | some known =>
      rw [ask_of_found hfound] at h ⊢
      rw [hfound, Except.ok.inj h]
  | none =>
      rw [ask_of_not_found _ hfound] at h ⊢
      simp only [show Runner.answer outcomes m.calls = .ok text from h, Except.toOption]

structure Sound (outcomes : List Outcome) (m : Lookups) : Prop where
  kept : ∀ i < m.calls, ∀ text, Runner.answer outcomes i = .ok text →
    m.calls = i + 1 ∧ m.found = some text
  given : ∀ text, m.found = some text → ∃ i < m.calls, Runner.answer outcomes i = .ok text

theorem sound_none (outcomes : List Outcome) : Sound outcomes ⟨0, none⟩ := ⟨nofun, nofun⟩

theorem Sound.ask (h : Sound outcomes m) : Sound outcomes (ask outcomes m).2 := by
  cases hfound : m.found with
  | some known =>
      rw [ask_of_found hfound]
      exact h
  | none =>
      rw [ask_of_not_found _ hfound]
      refine ⟨fun i hi text hanswer => ?_, fun text htext => ⟨m.calls, Nat.lt_succ_self _, ?_⟩⟩
      · have hlast : i = m.calls := by
          by_contra hne
          have hbefore : i < m.calls := Nat.lt_of_le_of_ne (Nat.le_of_lt_succ hi) hne
          rw [(h.kept i hbefore text hanswer).2] at hfound
          cases hfound
        subst hlast
        exact ⟨rfl, by rw [hanswer]; rfl⟩
      · cases hanswer : Runner.answer outcomes m.calls with
        | ok answered =>
            rw [hanswer] at htext
            rw [Option.some.inj htext]
        | error e =>
            rw [hanswer] at htext
            cases htext

end Lookups

/-! ## Workspaces that keep the commit -/

structure Script where
  options : Options
  directory : Path
  outcomes : List Outcome

def Options.linksCommit (o : Options) : Bool := o.srcDirUri.any (Text.includes commitPlaceholder)

namespace Script

open Docsmith.Action

variable {α β : Type} {σ : Script} {w : Workspace} {m : Lookups}

structure Follows (σ : Script) (w : Workspace) (m : Lookups) : Prop where
  runner : w.runner = .called σ.outcomes σ.directory m.calls
  pending : m.found = none → w.commit.getD σ.options.commit = .pending σ.directory
  known : ∀ text, m.found = some text → w.commit = some (.known (.str text))

/-- The commit was asked for, and if it was not found, that is why there is no result. -/
structure Asked (σ : Script) (m : Lookups) (r : Except Failure α × Workspace) : Prop where
  follows : σ.Follows r.2 (m.ask σ.outcomes).2
  failed : ∀ e, (m.ask σ.outcomes).1 = .error e → r.1 = .error (.commit e)

theorem asked_of_ask_eq {answer : Except CommitFault Text} {m' : Lookups}
    {r : Except Failure α × Workspace} (hask : m.ask σ.outcomes = (answer, m'))
    (hfollows : σ.Follows r.2 m') (hfailed : ∀ e, answer = .error e → r.1 = .error (.commit e)) :
    σ.Asked m r := by
  constructor <;> rwa [hask]

theorem Follows.lookUpCommit (h : σ.Follows w m) :
    σ.Asked m (lookUpCommit σ.options.commit w) := by
  unfold Action.lookUpCommit
  cases hfound : m.found with
  | some text =>
      have hknown := h.known text hfound
      simp only [hknown, Option.getD_some, Commit.get]
      refine asked_of_ask_eq (Lookups.ask_of_found hfound)
        ⟨h.runner, fun hnone => ?_, fun text' hfound' => ?_⟩ fun e he => ?_
      · cases hfound.symm.trans hnone
      · exact hknown.symm.trans (h.known text' hfound')
      · cases he
  | none =>
      have hpending := h.pending hfound
      have hrun := Runner.run_called σ.outcomes σ.directory m.calls w.tree w.cwd
      have hask := Lookups.ask_of_not_found σ.outcomes hfound
      rw [← h.runner] at hrun
      cases hanswer : Runner.answer σ.outcomes m.calls with
      | ok text =>
          rw [hanswer] at hrun hask
          simp only [hpending, Commit.get, hrun]
          refine asked_of_ask_eq hask ⟨rfl, fun hnone => ?_, fun text' hfound' => ?_⟩ fun e he => ?_
          · cases hnone
          · cases hfound'
            rfl
          · cases he
      | error e =>
          rw [hanswer] at hrun hask
          simp only [hpending, Commit.get, hrun]
          refine asked_of_ask_eq hask ⟨rfl, fun _ => rfl, fun text' hfound' => ?_⟩ fun e' he => ?_
          · cases hfound'
          · cases he
            rfl

theorem Follows.unasking {x : Action α} (h : σ.Follows w m) (hx : Unasking x) :
    σ.Follows (x w).2 m where
  runner := (hx.runner w).trans h.runner
  pending hfound := by
    rw [hx.commit w]
    exact h.pending hfound
  known text hfound := (hx.commit w).trans (h.known text hfound)

def Asks (σ : Script) (asked : Bool) (x : Action α) (w : Workspace) : Prop :=
  ∀ m, σ.Follows w m → if asked then σ.Asked m (x w) else σ.Follows (x w).2 m

theorem Asked.of_error {f : Failure}
    (h : σ.Asked m ((.error f, w) : Except Failure α × Workspace)) :
    σ.Asked m ((.error f, w) : Except Failure β × Workspace) where
  follows := h.follows
  failed e he := by
    cases h.failed e he
    rfl

theorem Asks.follows_of_ask_eq {asked : Bool} {x : Action α} (hx : σ.Asks asked x w)
    (h : σ.Follows w m) {text : Text} (hask : m.ask σ.outcomes = (.ok text, m)) :
    σ.Follows (x w).2 m := by
  have hx := hx m h
  cases asked with
  | false => exact hx
  | true =>
      have hfollows := hx.follows
      rwa [hask] at hfollows

/-- To ask twice is to ask once, unless the first part fails before it has asked. -/
theorem Asks.bind {asked asked' : Bool} {x : Action α} {next : α → Action β}
    (hx : σ.Asks asked x w) (hnext : ∀ a mid, x w = (.ok a, mid) → σ.Asks asked' (next a) mid)
    (hok : asked = false → asked' = true → ∃ a mid, x w = (.ok a, mid)) :
    σ.Asks (asked || asked') (x >>= next) w := by
  intro m hfollows
  have hasks := hx m hfollows
  rw [bind_apply]
  match h : x w with
  | (.error e, mid) =>
      rw [h] at hasks
      cases asked with
      | true => exact hasks.of_error
      | false =>
          cases asked' with
          | false => exact hasks
          | true =>
              obtain ⟨a, mid', hok⟩ := hok rfl rfl
              cases h.symm.trans hok
  | (.ok a, mid) =>
      rw [h] at hasks
      cases asked with
      | false => exact hnext a mid h m hasks
      | true =>
          cases hask : (m.ask σ.outcomes).1 with
          | error e => cases hasks.failed e hask
          | ok text =>
              have hagain := Lookups.ask_ask_of_ok hask
              refine ⟨(hnext a mid h).follows_of_ask_eq hasks.follows hagain, fun e he => ?_⟩
              cases hask.symm.trans he

theorem asks_of_unasking {x : Action α} (hx : Unasking x) (w : Workspace) : σ.Asks false x w :=
  fun _ hfollows => hfollows.unasking hx

theorem Asks.bind_unasking {asked : Bool} {x : Action α} {next : α → Action β}
    (hx : σ.Asks asked x w) (hnext : ∀ a, Unasking (next a)) : σ.Asks asked (x >>= next) w := by
  rw [← Bool.or_false asked]
  exact hx.bind (fun a mid _ => asks_of_unasking (hnext a) mid) nofun

/-- What comes of an action after so many calls.  Once a call has found the commit, there is no
other; until then there is just one if the commit is asked for. -/
structure Step (σ : Script) (asked : Bool) (n : Nat) (w : Workspace)
    (r : Except Failure α × Workspace) : Prop where
  found : ∀ i < n, ∀ text, Runner.answer σ.outcomes i = .ok text →
    n = i + 1 ∧ w.commit = some (.known (.str text)) ∧
      r.2.runner = w.runner ∧ r.2.commit = some (.known (.str text))
  unasked : (∀ i < n, ∀ text, Runner.answer σ.outcomes i ≠ .ok text) → asked = false →
    r.2.runner = w.runner ∧ r.2.commit.getD σ.options.commit = .pending σ.directory
  failed : (∀ i < n, ∀ text, Runner.answer σ.outcomes i ≠ .ok text) → asked = true →
    ∀ e, Runner.answer σ.outcomes n = .error e → r.1 = .error (.commit e) ∧
      r.2.runner = .called σ.outcomes σ.directory (n + 1) ∧
      r.2.commit.getD σ.options.commit = .pending σ.directory
  succeeded : (∀ i < n, ∀ text, Runner.answer σ.outcomes i ≠ .ok text) → asked = true →
    ∀ text, Runner.answer σ.outcomes n = .ok text →
      r.2.runner = .called σ.outcomes σ.directory (n + 1) ∧
      r.2.commit = some (.known (.str text))

theorem Asks.sound {asked : Bool} {x : Action α} (hx : σ.Asks asked x w)
    (h : σ.Follows w m) (hsound : m.Sound σ.outcomes) :
    ∃ m' : Lookups, m'.Sound σ.outcomes ∧ σ.Follows (x w).2 m' := by
  have hx := hx m h
  cases asked with
  | false => exact ⟨m, hsound, hx⟩
  | true => exact ⟨_, hsound.ask, hx.follows⟩

theorem Asks.step {asked : Bool} {x : Action α} (hx : σ.Asks asked x w) (h : σ.Follows w m)
    (hsound : m.Sound σ.outcomes) : σ.Step asked m.calls w (x w) := by
  have hnone (hfailed : ∀ i < m.calls, ∀ text, Runner.answer σ.outcomes i ≠ .ok text) :
      m.found = none := by
    rw [Option.eq_none_iff_forall_ne_some]
    intro text hfound
    obtain ⟨i, hi, hanswer⟩ := hsound.given text hfound
    exact hfailed i hi text hanswer
  refine ⟨fun i hi text hanswer => ?_, fun hfailed hasked => ?_, fun hfailed hasked e he => ?_,
    fun hfailed hasked text htext => ?_⟩
  · obtain ⟨hcalls, hfound⟩ := hsound.kept i hi text hanswer
    have hfollows := hx.follows_of_ask_eq h (Lookups.ask_of_found hfound)
    exact ⟨hcalls, h.known text hfound, hfollows.runner.trans h.runner.symm,
      hfollows.known text hfound⟩
  · subst hasked
    have hfollows : σ.Follows (x w).2 m := hx m h
    exact ⟨hfollows.runner.trans h.runner.symm, hfollows.pending (hnone hfailed)⟩
  · subst hasked
    have hask := Lookups.ask_of_not_found σ.outcomes (hnone hfailed)
    obtain ⟨hfollows, hresult⟩ : σ.Asked m (x w) := hx m h
    rw [hask, he] at hfollows hresult
    exact ⟨hresult e rfl, hfollows.runner, hfollows.pending rfl⟩
  · subst hasked
    have hask := Lookups.ask_of_not_found σ.outcomes (hnone hfailed)
    obtain ⟨hfollows, -⟩ : σ.Asked m (x w) := hx m h
    rw [hask, htext] at hfollows
    exact ⟨hfollows.runner, hfollows.known text rfl⟩

/-! ## Links -/

/-- The action asks for the commit just if links name it and one is needed.  If none is needed
nothing else can fail. -/
structure Links (σ : Script) (needed : Bool) (x : Action α) (w : Workspace) : Prop where
  asks : σ.Asks (σ.options.linksCommit && needed) x w
  ok : σ.options.linksCommit = true → needed = false → ∃ a w', x w = (.ok a, w')

theorem links_of_unasking {x : Action α} (hx : Unasking x) (hok : ∃ a w', x w = (.ok a, w')) :
    σ.Links false x w where
  asks := by
    rw [Bool.and_false]
    exact asks_of_unasking hx w
  ok _ _ := hok

theorem links_pure (a : α) (w : Workspace) : σ.Links false (pure a) w :=
  links_of_unasking (unasking_pure a) ⟨a, w, rfl⟩

theorem links_of_unlinked {needed : Bool} {x : Action α}
    (unlinked : σ.options.linksCommit = false) (hx : Unasking x) : σ.Links needed x w where
  asks := by
    rw [unlinked, Bool.false_and]
    exact asks_of_unasking hx w
  ok hlinks _ := by
    rw [unlinked] at hlinks
    cases hlinks

theorem Links.bind {needed needed' : Bool} {x : Action α} {next : α → Action β}
    (hx : σ.Links needed x w)
    (hnext : ∀ a mid, x w = (.ok a, mid) → σ.Links needed' (next a) mid) :
    σ.Links (needed || needed') (x >>= next) w where
  asks := by
    rw [Bool.and_or_distrib_left]
    refine hx.asks.bind (fun a mid h => (hnext a mid h).asks) fun hfirst hsecond => ?_
    obtain ⟨hlinks, -⟩ := Bool.and_eq_true_iff.1 hsecond
    rw [hlinks, Bool.true_and] at hfirst
    exact hx.ok hlinks hfirst
  ok hlinks hneeded := by
    obtain ⟨hneeded, hneeded'⟩ := Bool.or_eq_false_iff.1 hneeded
    obtain ⟨a, mid, h⟩ := hx.ok hlinks hneeded
    obtain ⟨b, w', h'⟩ := (hnext a mid h).ok hlinks hneeded'
    exact ⟨b, w', (bind_of_ok h).trans h'⟩

theorem Links.before {needed : Bool} {x : Action α} {next : α → Action β}
    (hx : σ.Links needed x w)
    (hnext : ∀ a mid, x w = (.ok a, mid) → σ.Links false (next a) mid) :
    σ.Links needed (x >>= next) w := by
  have hlinks := hx.bind hnext
  rwa [Bool.or_false] at hlinks

theorem Links.bind_pure {needed : Bool} {x : Action α} (hx : σ.Links needed x w) (f : α → β) :
    σ.Links needed (x >>= fun a => pure (f a)) w :=
  hx.before fun a mid _ => links_pure (f a) mid

end Script

end Docsmith
