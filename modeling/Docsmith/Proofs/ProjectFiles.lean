import Docsmith.Proofs.Loading

/-!
# Options in project files

What can derail where options are looked for in a dependency file or in a project definition.
The text of these files, and the patterns in them, are at fault in the eyes of the
configuration.  Integers of too many digits and keys that are collections are not.
-/

namespace Docsmith

def ValueFault.derails : ValueFault → Bool
  | .pattern fault => !fault.isPatternError
  | .unusableKey => true

namespace ProjectFile

def Holds (w : Workspace) (p : Path) (fs : List Form) : Prop :=
  ∃ text, w.tree.readText w.cwd p = .ok text ∧ Form.readAll ["clj"] text = .ok fs

theorem still_forms (p : Path) : Action.Still (forms p) := by
  refine (Action.still_tryReadText p).bind fun text => ?_
  cases text with
  | error e => exact Action.still_fail _
  | ok text =>
      dsimp only
      split
      · exact Action.still_pure _
      · exact Action.still_fail _

theorem forms_fst (w : Workspace) (p : Path) :
    (forms p w).1 = match w.tree.readText w.cwd p with
      | .error e => .error (.config (.unparsed p.name e.message))
      | .ok text =>
          match Form.readAll ["clj"] text with
          | .ok fs => .ok fs
          | .error e =>
              .error (if e.line?.isSome then .config (.unparsed p.name e.message) else .read e) := by
  have hread : Action.tryReadText p w = (.ok (w.tree.readText w.cwd p), w) := rfl
  rw [forms, Action.bind_apply, hread]
  cases w.tree.readText w.cwd p with
  | error e => rfl
  | ok text =>
      dsimp only
      cases Form.readAll ["clj"] text <;> rfl

theorem forms_eq_ok_iff {w : Workspace} {p : Path} {fs : List Form} :
    (forms p w).1 = .ok fs ↔ Holds w p fs := by
  rw [forms_fst, Holds]
  cases w.tree.readText w.cwd p with
  | error e => simp
  | ok text => cases hforms : Form.readAll ["clj"] text <;> simp [hforms]

theorem still_valueOf (p : Path) (f : Form) : Action.Still (valueOf p f) := by
  unfold valueOf
  split
  · exact Action.still_pure _
  all_goals exact Action.still_fail _

theorem valueOf_of_ok {f : Form} {v : Value} (h : f.toValue = .ok v) (p : Path) :
    valueOf p f = pure v := by
  rw [valueOf, h]

theorem exists_valueOf_eq_fail {f : Form} {fault : ValueFault} (h : f.toValue = .error fault)
    (p : Path) : ∃ failure : Failure, valueOf p f = Action.fail failure ∧
      failure.isConfig = !fault.derails := by
  rw [valueOf, h]
  cases fault with
  | unusableKey => exact ⟨_, rfl, rfl⟩
  | pattern fault =>
      cases hfault : fault.isPatternError <;>
        exact ⟨_, rfl, by simp [hfault, ValueFault.derails, Failure.isConfig]⟩

theorem valueOf_eq_ok_iff {w : Workspace} {p : Path} {f : Form} {v : Value} :
    (valueOf p f w).1 = .ok v ↔ f.toValue = .ok v := by
  cases hvalue : f.toValue with
  | ok u =>
      rw [valueOf_of_ok hvalue]
      constructor
      all_goals
        intro h
        cases h
        rfl
  | error fault =>
      obtain ⟨failure, hfail, -⟩ := exists_valueOf_eq_fail hvalue p
      rw [hfail]
      exact iff_of_false nofun nofun

/-- The options at a path of keys, if there is a dictionary. -/
def sectionAt (data : Value) (keys : List Value) : Dict :=
  match getIn (some data) keys with
  | .ok (some (.dict d)) => d
  | _ => []

/-- A key that is looked up on the way cannot be written. -/
def blocked : Value → List Value → Bool
  | .dict d, key :: keys =>
      !key.writable ||
        match Dict.getText? d (dropColons key.text) with
        | some v => blocked v keys
        | none => false
  | _, _ => false

theorem blocked_of_writable {keys : List Value} (h : ∀ k ∈ keys, k.writable = true) (v : Value) :
    blocked v keys = false := by
  induction keys generalizing v with
  | nil => cases v <;> rfl
  | cons key keys ih =>
      obtain ⟨hkey, hkeys⟩ := List.forall_mem_cons.1 h
      cases v with
      | dict d =>
          simp only [blocked, hkey]
          cases Dict.getText? d (dropColons key.text) with
          | none => rfl
          | some v => exact ih hkeys v
      | _ => rfl

theorem getIn_none (keys : List Value) : getIn none keys = .ok none := by
  cases keys <;> rfl

theorem getIn_cons (d : Dict) {key : Value} (h : key.writable = true) (keys : List Value) :
    getIn (some (.dict d)) (key :: keys) =
      getIn (Dict.getText? d (dropColons key.text)) keys := by
  rw [getIn, Options.toText, if_pos h]
  rfl

theorem getIn_of_blocked {v : Value} {keys : List Value} (h : blocked v keys = true) :
    getIn (some v) keys = .error (.value .integerTooLong) := by
  induction keys generalizing v with
  | nil => cases v <;> cases h
  | cons key keys ih =>
      cases v with
      | dict d =>
          cases hkey : key.writable with
          | false =>
              rw [getIn, Options.toText, if_neg (by simp [hkey])]
              rfl
          | true =>
              rw [getIn_cons d hkey]
              cases hfound : Dict.getText? d (dropColons key.text) with
              | none => simp [blocked, hkey, hfound] at h
              | some v =>
                  simp only [blocked, hkey, hfound] at h
                  exact ih h
      | _ => cases h

theorem exists_getIn_of_not_blocked {v : Value} {keys : List Value} (h : blocked v keys = false) :
    ∃ found, getIn (some v) keys = .ok found := by
  induction keys generalizing v with
  | nil => exact ⟨some v, rfl⟩
  | cons key keys ih =>
      cases v with
      | dict d =>
          cases hkey : key.writable with
          | false => simp [blocked, hkey] at h
          | true =>
              rw [getIn_cons d hkey]
              cases hfound : Dict.getText? d (dropColons key.text) with
              | none => exact ⟨none, getIn_none keys⟩
              | some v =>
                  simp only [blocked, hkey, hfound] at h
                  exact ih h
      | _ => exact ⟨none, rfl⟩

def sectionsOver (data : Value) (paths : List (List Value)) (merged : Dict) : Dict :=
  paths.foldl (fun merged keys => Dict.update merged (sectionAt data keys)) merged

theorem exists_sections_cons_eq (p : Path) {data : Value} {keys : List Value}
    (unblocked : blocked data keys = false) (rest : List Value) (merged : Dict) (w : Workspace) :
    ∃ w', sections p data (.list keys :: rest) merged w =
      sections p data rest (Dict.update merged (sectionAt data keys)) w' := by
  have hkeys : Action.ofExcept (itemsOf (.list keys)) w = (.ok keys, w) := rfl
  have hnothing (h : sectionAt data keys = []) : ∃ w', (do
        Action.logAs logger .debug
          ("No options map at " ++ (Value.list keys).literal ++ " in " ++ p.name)
        sections p data rest merged) w =
      sections p data rest (Dict.update merged (sectionAt data keys)) w' := by
    rw [h]
    exact ⟨_, rfl⟩
  obtain ⟨found, hget⟩ := exists_getIn_of_not_blocked unblocked
  have hfound : Action.ofExcept (getIn (some data) keys) w = (.ok found, w) := by
    rw [hget]
    rfl
  rw [sections, Action.bind_apply, hkeys]
  dsimp only
  rw [Action.bind_apply, hfound]
  cases found with
  | none => exact hnothing (by rw [sectionAt, hget])
  | some v =>
      cases v with
      | dict d =>
          rw [sectionAt, hget]
          exact ⟨w, rfl⟩
      | _ => exact hnothing (by rw [sectionAt, hget])

theorem exists_sections_eq (p : Path) {data : Value} {paths : List (List Value)}
    (unblocked : ∀ keys ∈ paths, blocked data keys = false) (merged : Dict) (w : Workspace) :
    ∃ w', sections p data (paths.map .list) merged w =
      (.ok (sectionsOver data paths merged), w') := by
  induction paths generalizing merged w with
  | nil => exact ⟨w, rfl⟩
  | cons keys paths ih =>
      obtain ⟨hfirst, hothers⟩ := List.forall_mem_cons.1 unblocked
      obtain ⟨mid, hstep⟩ := exists_sections_cons_eq p hfirst (paths.map .list) merged w
      obtain ⟨last, hrest⟩ := ih hothers (Dict.update merged (sectionAt data keys)) mid
      exact ⟨last, hstep.trans hrest⟩

theorem exists_sections_eq_error (p : Path) {data : Value} {paths : List (List Value)}
    {keys : List Value} (mem : keys ∈ paths) (h : blocked data keys = true) (merged : Dict)
    (w : Workspace) : ∃ w', sections p data (paths.map .list) merged w =
      (.error (.value .integerTooLong), w') := by
  induction paths generalizing merged w with
  | nil => cases mem
  | cons first paths ih =>
      cases hfirst : blocked data first with
      | true =>
          have hkeys : Action.ofExcept (itemsOf (.list first)) w = (.ok first, w) := rfl
          have hfound : Action.ofExcept (getIn (some data) first) w =
              (.error (.value .integerTooLong), w) := by
            rw [getIn_of_blocked hfirst]
            rfl
          refine ⟨w, ?_⟩
          rw [List.map_cons, sections, Action.bind_apply, hkeys]
          dsimp only
          rw [Action.bind_apply, hfound]
      | false =>
          have mem : keys ∈ paths := by
            rcases List.mem_cons.1 mem with rfl | mem
            · simp [hfirst] at h
            · exact mem
          obtain ⟨mid, hstep⟩ := exists_sections_cons_eq p hfirst (paths.map .list) merged w
          obtain ⟨last, hrest⟩ := ih mem (Dict.update merged (sectionAt data first)) mid
          exact ⟨last, hstep.trans hrest⟩

theorem eq_sectionsOver_of_sections {p : Path} {data : Value} {paths : List (List Value)}
    {merged result : Dict} {w w' : Workspace}
    (h : sections p data (paths.map .list) merged w = (.ok result, w')) :
    result = sectionsOver data paths merged := by
  have unblocked : ∀ keys ∈ paths, blocked data keys = false := by
    intro keys mem
    rw [← Bool.not_eq_true]
    intro hblocked
    obtain ⟨last, herror⟩ := exists_sections_eq_error p mem hblocked merged w
    cases herror.symm.trans h
  obtain ⟨last, hmerged⟩ := exists_sections_eq p unblocked merged w
  cases hmerged.symm.trans h
  rfl

def properties (rest : List Form) : Attrs := Form.findVals ["description", "profiles"] rest []

def profile? (values : OptionTable) : Option Value :=
  match getIn (values.get? "profiles") [.str "codox", .str "codox"] with
  | .ok found => found
  | .error _ => none

theorem getIn_profiles (values : OptionTable) :
    getIn (values.get? "profiles") [.str "codox", .str "codox"] = .ok (profile? values) := by
  unfold profile?
  cases hprofiles : values.get? "profiles" with
  | none => rfl
  | some v =>
      have hwritable : ∀ k ∈ [Value.str "codox", .str "codox"], k.writable = true := by decide
      obtain ⟨found, hfound⟩ := exists_getIn_of_not_blocked (blocked_of_writable hwritable v)
      rw [hfound]

theorem exists_own_of_definitionOptions {w w' : Workspace} {p : Path} {t : OptionTable}
    (h : definitionOptions p w = (.ok t, w')) :
    ∃ fs name version rest values own, Holds w p fs ∧
      definition? fs = some (name, version, rest) ∧
      (valuesOf p (properties rest) w).1 = .ok values ∧
      ((∃ d given, profile? values = some (.dict d) ∧ OptionTable.ofValue (.dict d) = .ok given ∧
          t = Table.update own given) ∨
        (∀ d, profile? values ≠ some (.dict d)) ∧ t = own) ∧
      own.map Prod.fst = [Text.ofString "name", "version", "description"] := by
  obtain ⟨fs, mid, hforms, h⟩ := Action.exists_of_bind h
  obtain rfl : w = mid := (still_forms p w).symm.trans (congrArg Prod.snd hforms)
  have holds := forms_eq_ok_iff.1 (congrArg Prod.fst hforms)
  cases hdefines : definition? fs with
  | none =>
      rw [hdefines] at h
      cases h
  | some parts =>
      obtain ⟨name, version, rest⟩ := parts
      rw [hdefines] at h
      dsimp only at h
      cases hlabel : name.label? with
      | none =>
          rw [hlabel] at h
          cases h
      | some label =>
          rw [hlabel] at h
          obtain ⟨values, mid, hvalues, h⟩ := Action.exists_of_bind h
          obtain ⟨profile, _, hfound, h⟩ := Action.exists_of_bind h
          have hfound := (Action.eq_of_ofExcept hfound).1
          rw [getIn_profiles] at hfound
          obtain rfl := Except.ok.inj hfound
          have hvalues := congrArg Prod.fst hvalues
          cases hprofile : profile? values with
          | none =>
              rw [hprofile] at h
              cases h
              exact ⟨fs, name, version, rest, values, _, holds, hdefines, hvalues,
                .inr ⟨by simp [hprofile], rfl⟩, rfl⟩
          | some v =>
              rw [hprofile] at h
              cases v with
              | dict d =>
                  obtain ⟨given, mid, hgiven, h⟩ := Action.exists_of_bind h
                  cases h
                  exact ⟨fs, name, version, rest, values, _, holds, hdefines, hvalues,
                    .inl ⟨d, given, hprofile, (Action.eq_of_ofExcept hgiven).1, rfl⟩, rfl⟩
              | _ =>
                  cases h
                  exact ⟨fs, name, version, rest, values, _, holds, hdefines, hvalues,
                    .inr ⟨by simp [hprofile], rfl⟩, rfl⟩

end ProjectFile

end Docsmith
