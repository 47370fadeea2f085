import Docsmith.Options.Load
import Docsmith.Proofs.Sequencing
import Docsmith.Proofs.Settings
import Mathlib.Data.List.DropRight

/-!
# Loading options

Options are loaded into tables whose keys are in their normal spelling.  The first place to
look is the configuration file; what can derail there is listed here.
-/

namespace Docsmith

/-! ## Normal tables -/

theorem Text.replaceAll_point (c d : CodePoint) (t : Text) :
    replaceAll [c] [d] t = t.map fun x => if x = c then d else x := by
  unfold replaceAll
  induction t with
  | nil => rfl
  | cons x t ih =>
      by_cases hx : x = c
      · simpa [replaceAll.go, hx] using ih
      · simpa [replaceAll.go, hx, Ne.symm hx] using ih

def normalPoint (c : CodePoint) : CodePoint := if c = '-' then '_' else c

theorem normalPoint_normalPoint (c : CodePoint) : normalPoint (normalPoint c) = normalPoint c := by
  unfold normalPoint
  split
  · decide
  · rfl

theorem isColon_normalPoint (c : CodePoint) : isColon (normalPoint c) = isColon c := by
  unfold normalPoint
  split
  case isTrue h =>
    subst h
    decide
  case isFalse => rfl

theorem normalKey_eq (v : Value) : normalKey v = (v.text.dropWhile isColon).map normalPoint :=
  Text.replaceAll_point '-' '_' _

theorem normalKey_normalKey (v : Value) : normalKey (.str (normalKey v)) = normalKey v := by
  have hcolon : isColon ∘ normalPoint = isColon := funext isColon_normalPoint
  have hpoint : normalPoint ∘ normalPoint = normalPoint := funext normalPoint_normalPoint
  have htext : (Value.str (normalKey v)).text = normalKey v := rfl
  rw [normalKey_eq (.str (normalKey v)), htext, normalKey_eq v, List.dropWhile_map, hcolon,
    List.dropWhile_idempotent, List.map_map, hpoint]

namespace OptionTable

/-- All keys are in their normal spelling, and each is there once. -/
structure Normal (t : OptionTable) : Prop where
  keys : ∀ e ∈ t, normalKey (.str e.1) = e.1
  nodup : (t.map Prod.fst).Nodup

theorem normal_nil : Normal [] := ⟨nofun, List.nodup_nil⟩

theorem Normal.insert {t : OptionTable} (h : Normal t) {key : Text}
    (hkey : normalKey (.str key) = key) (v : Value) : Normal (Table.insert key v t) where
  keys e he := by
    rcases Table.mem_insert he with rfl | he
    · exact hkey
    · exact h.keys e he
  nodup := Table.nodup_insert h.nodup

theorem Normal.update {t u : OptionTable} (h : Normal t) (hu : Normal u) :
    Normal (Table.update t u) where
  keys e he := (Table.mem_update he).elim (h.keys e) (hu.keys e)
  nodup := Table.nodup_update h.nodup u

theorem Normal.erase {t : OptionTable} (h : Normal t) (key : Text) :
    Normal (Table.erase t key) where
  keys e he := h.keys e (List.mem_filter.1 he).1
  nodup := h.nodup.sublist (List.filter_sublist.map _)

theorem normal_normalize (d : Dict) : Normal (normalize d) := by
  have hfold : ∀ t : OptionTable, Normal t →
      Normal (d.foldl (fun t e => Table.insert (normalKey e.1) e.2 t) t) := by
    induction d with
    | nil => exact fun _ h => h
    | cons e d ih => exact fun t h => ih _ (h.insert (normalKey_normalKey e.1) e.2)
  exact hfold [] normal_nil

theorem normal_of_ofValue {v : Value} {t : OptionTable} (h : ofValue v = .ok t) : Normal t := by
  unfold ofValue at h
  split at h
  · split at h
    · cases h
      exact normal_normalize _
    · cases h
  · split at h
    · cases h
    · cases h
      exact normal_nil

end OptionTable

namespace Action

variable {α β : Type} {w : Workspace}

def Derails (w : Workspace) (x : Action α) : Prop := Docsmith.Derails (x w).1

def Still (x : Action α) : Prop := ∀ w, (x w).2 = w

theorem still_pure (a : α) : Still (pure a) := fun _ => rfl

theorem still_fail (f : Failure) : Still (fail f : Action α) := fun _ => rfl

theorem still_ofExcept (e : Except Failure α) : Still (ofExcept e) := fun _ => rfl

theorem still_workspace : Still workspace := fun _ => rfl

theorem still_fileExists (p : Path) : Still (fileExists p) := fun _ => rfl

theorem still_readText (p : Path) : Still (readText p) := fun _ => rfl

theorem still_tryReadText (p : Path) : Still (tryReadText p) := fun _ => rfl

theorem Still.bind {x : Action α} {next : α → Action β} (hx : Still x)
    (hnext : ∀ a, Still (next a)) : Still (x >>= next) := fun w =>
  related_bind (r := fun w w' => w' = w) (fun h h' => h'.trans h) (hx w) fun a mid _ => hnext a mid

theorem Still.eq {x : Action α} (hx : Still x) (w : Workspace) : x w = ((x w).1, w) :=
  Prod.ext rfl (hx w)

end Action

/-! ## The configuration file -/

/-- The configuration at a path that does not begin with a home, as it is written. -/
def configFile (w : Workspace) (p : Path) : Path :=
  if w.tree.isDirectory w.cwd p then p.child configName else p

theorem still_configPath (p : Path) : Action.Still (configPath p) := by
  refine Action.still_workspace.bind fun w => ?_
  refine (Action.still_ofExcept _).bind fun p => ?_
  exact Action.still_ofExcept _

theorem still_loadConfig (p : Path) : Action.Still (loadConfig p) := by
  refine (still_configPath p).bind fun file => ?_
  refine (Action.still_fileExists file).bind fun found => ?_
  cases found with
  | false => exact Action.still_pure _
  | true =>
      refine (Action.still_readText file).bind fun text => ?_
      refine (Action.still_ofExcept _).bind fun v => ?_
      cases v with
      | dict d => exact Action.still_ofExcept _
      | _ => exact Action.still_fail _

theorem Path.user?_resolve (cwd p : Path) : (resolve cwd p).user? = none := by
  unfold user? resolve
  split
  case h_1 => simp
  case h_2 => rfl

theorem configPath_fst {p : Path} (plain : p.user? = none) (w : Workspace) :
    (configPath p w).1 = (Path.resolve? w.cwd (configFile w p)).mapError Failure.ofName := by
  have hexpand : p.expand? w.homes = .ok p := by rw [Path.expand?, plain]
  have hfirst : Action.ofExcept ((p.expand? w.homes).mapError Failure.ofHome) w = (.ok p, w) := by
    rw [hexpand]
    rfl
  have hstart : Action.workspace w = (.ok w, w) := rfl
  rw [configPath, Action.bind_apply, hstart]
  dsimp only
  rw [Action.bind_apply, hfirst]
  rfl

end Docsmith
