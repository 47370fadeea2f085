import Docsmith.Pipeline.Provenance
import Docsmith.Proofs.Outcome
import Docsmith.Run.Workspace

/-!
# Searches and actions one after the other

What is known of the result of a sequence of steps, and of what is logged on the way, follows
from what is known of each step.
-/

namespace Docsmith

/-! ## The search for source paths -/

def Quiet (log : List LogRecord) : Prop := ∀ r ∈ log, r.level ≠ .info

theorem quiet_append {log log' : List LogRecord} (h : Quiet log) (h' : Quiet log') :
    Quiet (log ++ log') := by
  intro r hr
  rcases List.mem_append.1 hr with hr | hr
  · exact h r hr
  · exact h' r hr

namespace Searching

def Gives {α : Type} (x : Searching α) (p : α → Prop) : Prop :=
  ∀ s a s', x s = .ok (a, s') → p a ∧ (Quiet s.log → Quiet s'.log)

theorem gives_pure {α : Type} {p : α → Prop} {a : α} (h : p a) : Gives (pure a) p := by
  intro s b s' hb
  cases hb
  exact ⟨h, id⟩

theorem gives_bind {α β : Type} {x : Searching α} {next : α → Searching β} {p : α → Prop}
    {q : β → Prop} (hx : Gives x p) (hnext : ∀ a, p a → Gives (next a) q) :
    Gives (x >>= next) q := by
  intro s b s' h
  obtain ⟨⟨a, mid⟩, ha, hb⟩ := exists_of_bind_eq_ok h
  obtain ⟨hp, hquiet⟩ := hx s a mid ha
  obtain ⟨hq, hquiet'⟩ := hnext a hp mid b s' hb
  exact ⟨hq, fun h => hquiet' (hquiet h)⟩

theorem gives_mapM {α β : Type} {f : α → Searching β} {r : α → β → Prop}
    (hf : ∀ a, Gives (f a) (r a)) (as : List α) : Gives (as.mapM f) (List.Forall₂ r as) := by
  induction as with
  | nil => exact gives_pure .nil
  | cons a as ih =>
      rw [List.mapM_cons]
      refine gives_bind (hf a) fun b hb => ?_
      exact gives_bind ih fun bs hbs => gives_pure (.cons hb hbs)

end Searching

/-! ## Actions -/

/-- What is logged on the way from one workspace to another.  Failures may be handed over
meanwhile, and nothing else happens. -/
inductive Logs : Workspace → List LogRecord → Workspace → Prop
  | nil (w : Workspace) : Logs w [] w
  | record {w w' : Workspace} {log : List LogRecord} (r : LogRecord)
      (rest : Logs (w.record r) log w') : Logs w (r :: log) w'
  | handle {w w' : Workspace} {log : List LogRecord} (f : Failure) (path : Text)
      (rest : Logs { w with handled := w.handled ++ [(f, path)] } log w') : Logs w log w'

namespace Logs

theorem append {w mid w' : Workspace} {log log' : List LogRecord} (h : Logs w log mid)
    (h' : Logs mid log' w') : Logs w (log ++ log') w' := by
  induction h with
  | nil => exact h'
  | record r _ ih => exact .record r (ih h')
  | handle f path _ ih => exact .handle f path (ih h')

theorem all (w : Workspace) (log : List LogRecord) : Logs w log (log.foldl (·.record ·) w) := by
  induction log generalizing w with
  | nil => exact .nil w
  | cons r log ih => exact .record r (ih (w.record r))

theorem log_eq {w w' : Workspace} {log : List LogRecord} (h : Logs w log w')
    (hnone : w.logging = none) : w'.log = w.log ++ log := by
  induction h with
  | nil => simp
  | @record w w' log r _ ih =>
      have hrecord : w.record r = { w with log := w.log ++ [r] } := by
        simp only [Workspace.record, hnone]
      rw [hrecord] at ih
      simpa using ih hnone
  | handle f path _ ih => exact ih hnone

end Logs

namespace Action

theorem bind_apply {α β : Type} (x : Action α) (next : α → Action β) (w : Workspace) :
    (x >>= next) w =
      match x w with
      | (.ok a, mid) => next a mid
      | (.error e, mid) => (.error e, mid) := by
  change ExceptT.bindCont next (x w).1 (x w).2 = _
  rcases x w with ⟨_ | _, mid⟩ <;> rfl

theorem bind_of_ok {α β : Type} {x : Action α} {next : α → Action β} {w mid : Workspace} {a : α}
    (h : x w = (.ok a, mid)) : (x >>= next) w = next a mid := by
  rw [bind_apply, h]

/-- What each of two actions does to the workspace, both do one after the other, also if the
second is not reached. -/
theorem related_bind {α β : Type} {r : Workspace → Workspace → Prop}
    (trans : ∀ {w mid w'}, r w mid → r mid w' → r w w') {x : Action α} {next : α → Action β}
    {w : Workspace} (hx : r w (x w).2)
    (hnext : ∀ a mid, x w = (.ok a, mid) → r mid (next a mid).2) :
    r w ((x >>= next) w).2 := by
  rw [bind_apply]
  match h : x w with
  | (.error e, mid) =>
      rw [h] at hx
      exact hx
  | (.ok a, mid) =>
      rw [h] at hx
      exact trans hx (hnext a mid h)

theorem exists_of_bind {α β : Type} {x : Action α} {next : α → Action β} {w w' : Workspace}
    {b : β} (h : (x >>= next) w = (.ok b, w')) :
    ∃ a mid, x w = (.ok a, mid) ∧ next a mid = (.ok b, w') := by
  rw [bind_apply] at h
  match hx : x w with
  | (.error e, mid) =>
      rw [hx] at h
      cases h
  | (.ok a, mid) =>
      rw [hx] at h
      exact ⟨a, mid, rfl, h⟩

theorem exists_of_forM_append {α : Type} {f : α → Action Unit} {as bs : List α}
    {w w' : Workspace} (h : (as ++ bs).forM f w = (.ok (), w')) :
    ∃ mid, as.forM f w = (.ok (), mid) ∧ bs.forM f mid = (.ok (), w') := by
  induction as generalizing w with
  | nil => exact ⟨w, rfl, h⟩
  | cons a as ih =>
      obtain ⟨_, mid, ha, h⟩ := exists_of_bind h
      obtain ⟨done, has, hbs⟩ := ih h
      exact ⟨done, (bind_of_ok ha).trans has, hbs⟩

theorem eq_of_ofExcept {α : Type} {e : Except Failure α} {w w' : Workspace} {a : α}
    (h : ofExcept e w = (.ok a, w')) : e = .ok a ∧ w = w' :=
  ⟨congrArg Prod.fst h, congrArg Prod.snd h⟩

theorem logs_of_recordAll {log : List LogRecord} {w w' : Workspace} {a : Unit}
    (h : recordAll log w = (.ok a, w')) : Logs w log w' := by
  have hw : log.foldl (·.record ·) w = w' := congrArg Prod.snd h
  rw [← hw]
  exact Logs.all w log

/-- If the action succeeds its result is as said, and it has done nothing but log quietly
and hand over failures. -/
def Gives {α : Type} (x : Action α) (p : α → Prop) : Prop :=
  ∀ w a w', x w = (.ok a, w') → p a ∧ ∃ log, Logs w log w' ∧ Quiet log

theorem gives_bind {α β : Type} {x : Action α} {next : α → Action β} {p : α → Prop}
    {q : β → Prop} (hx : Gives x p) (hnext : ∀ a, p a → Gives (next a) q) :
    Gives (x >>= next) q := by
  intro w b w' h
  obtain ⟨a, mid, ha, hb⟩ := exists_of_bind h
  obtain ⟨hp, log, hlog, hquiet⟩ := hx w a mid ha
  obtain ⟨hq, log', hlog', hquiet'⟩ := hnext a hp mid b w' hb
  exact ⟨hq, log ++ log', hlog.append hlog', quiet_append hquiet hquiet'⟩

theorem gives_of_eq {α : Type} {x : Action α} {p : α → Prop}
    (h : ∀ w a w', x w = (.ok a, w') → p a ∧ w = w') : Gives x p := by
  intro w a w' hx
  obtain ⟨ha, rfl⟩ := h w a w' hx
  exact ⟨ha, [], .nil _, nofun⟩

theorem gives_pure {α : Type} {p : α → Prop} {a : α} (h : p a) : Gives (pure a) p := by
  refine gives_of_eq fun w b w' hb => ?_
  cases hb
  exact ⟨h, rfl⟩

theorem gives_fail {α : Type} (f : Failure) (p : α → Prop) : Gives (fail f) p := by
  refine gives_of_eq fun w a w' h => ?_
  have hresult : Except.error f = Except.ok a := congrArg Prod.fst h
  cases hresult

theorem gives_ofExcept {α : Type} (e : Except Failure α) :
    Gives (ofExcept e) fun a => e = .ok a :=
  gives_of_eq fun _ _ _ h => eq_of_ofExcept h

theorem gives_workspace : Gives workspace fun _ => True :=
  gives_of_eq fun _ _ _ h => ⟨trivial, congrArg Prod.snd h⟩

theorem gives_tryReadText (p : Path) : Gives (tryReadText p) fun _ => True :=
  gives_of_eq fun _ _ _ h => ⟨trivial, congrArg Prod.snd h⟩

theorem gives_handle (f : Failure) (path : Text) : Gives (handle f path) fun _ => True := by
  intro w a w' h
  cases h
  exact ⟨trivial, [], .handle f path (.nil _), nofun⟩

theorem gives_debug (part message : Text) : Gives (logAs part .debug message) fun _ => True := by
  intro w a w' h
  cases h
  refine ⟨trivial, [_], .record _ (.nil _), ?_⟩
  simp [Quiet]

end Action

end Docsmith
