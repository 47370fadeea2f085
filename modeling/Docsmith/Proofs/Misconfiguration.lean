import Docsmith.Proofs.ProjectFiles

/-!
# How configuring ends

Loading the options of a project and setting them ends with options, with a fault of the
configuration, or in one of the ways that are listed here.
-/

namespace Docsmith

/-! ## The files of a project -/

def argPathsOption (argPaths : List (List Text)) : Value :=
  .dict [(.str "arg_paths", .list (argPaths.map fun keys => .list (keys.map .str)))]

def keyPaths (argPaths : List (List Text)) : List (List Value) := argPaths.map (·.map .str)

theorem normal_of_loadConfig {p : Path} {w w' : Workspace} {t : OptionTable}
    (h : loadConfig p w = (.ok t, w')) : t.Normal := by
  obtain ⟨file, mid, -, h⟩ := Action.exists_of_bind h
  obtain ⟨found, mid, -, h⟩ := Action.exists_of_bind h
  cases found with
  | false =>
      cases h
      exact OptionTable.normal_nil
  | true =>
      obtain ⟨text, mid, -, h⟩ := Action.exists_of_bind h
      obtain ⟨v, mid, -, h⟩ := Action.exists_of_bind h
      cases v with
      | dict d => exact OptionTable.normal_of_ofValue (Action.eq_of_ofExcept h).1
      | _ => cases h

theorem normal_of_dependencyOptions {p : Path} {argPaths : Value} {w w' : Workspace}
    {t : OptionTable} (h : ProjectFile.dependencyOptions p argPaths w = (.ok t, w')) :
    t.Normal := by
  obtain ⟨fs, mid, -, h⟩ := Action.exists_of_bind h
  split at h
  · obtain ⟨data, mid, -, h⟩ := Action.exists_of_bind h
    dsimp only at h
    split at h
    all_goals
      obtain ⟨paths, mid, -, h⟩ := Action.exists_of_bind h
      obtain ⟨merged, mid, -, h⟩ := Action.exists_of_bind h
      exact OptionTable.normal_of_ofValue (Action.eq_of_ofExcept h).1
  · cases h

theorem normal_of_definitionOptions {p : Path} {w w' : Workspace} {t : OptionTable}
    (h : ProjectFile.definitionOptions p w = (.ok t, w')) : t.Normal := by
  obtain ⟨_, _, _, _, _, own, -, -, -, hgives, hkeys⟩ :=
    ProjectFile.exists_own_of_definitionOptions h
  have hnormal : ∀ key ∈ [Text.ofString "name", "version", "description"],
      normalKey (.str key) = key := by decide
  have hown : OptionTable.Normal own :=
    ⟨fun e he => hnormal e.1 (hkeys ▸ List.mem_map_of_mem he), by rw [hkeys]; decide⟩
  rcases hgives with ⟨d, given, -, hgiven, rfl⟩ | ⟨-, rfl⟩
  · exact hown.update (OptionTable.normal_of_ofValue hgiven)
  · exact hown

theorem normal_of_projectSection {root : Path} {argPaths : Value} {w w' : Workspace}
    {source : Option Text} {t : OptionTable}
    (h : projectSection root argPaths w = (.ok (source, t), w')) : t.Normal := by
  obtain ⟨config, mid, hconfig, h⟩ := Action.exists_of_bind h
  split at h
  · cases h
    exact normal_of_loadConfig hconfig
  · obtain ⟨found, mid, -, h⟩ := Action.exists_of_bind h
    split at h
    · obtain ⟨options, mid, hoptions, h⟩ := Action.exists_of_bind h
      cases h
      exact normal_of_dependencyOptions hoptions
    · obtain ⟨found, mid, -, h⟩ := Action.exists_of_bind h
      split at h
      · obtain ⟨options, mid, hoptions, h⟩ := Action.exists_of_bind h
        cases h
        exact normal_of_definitionOptions hoptions
      · cases h
        exact OptionTable.normal_nil

theorem normal_of_loadProjectOptions {root : Path} {base : Value} {w w' : Workspace}
    {t : OptionTable} (h : loadProjectOptions root base w = (.ok t, w')) : t.Normal := by
  obtain ⟨dir, mid, -, h⟩ := Action.exists_of_bind h
  obtain ⟨given, mid, hgiven, h⟩ := Action.exists_of_bind h
  obtain ⟨⟨source, found⟩, mid, hfound, h⟩ := Action.exists_of_bind h
  have hoptions : OptionTable.Normal (Table.update (Table.erase given "arg_paths") found) :=
    ((OptionTable.normal_of_ofValue (Action.eq_of_ofExcept hgiven).1).erase _).update
      (normal_of_projectSection hfound)
  have hrooted : OptionTable.Normal
      (if Table.has (Table.update (Table.erase given "arg_paths") found) "root_path" then
        Table.update (Table.erase given "arg_paths") found
      else Table.insert "root_path" (.str dir.text)
        (Table.update (Table.erase given "arg_paths") found)) := by
    split
    · exact hoptions
    · exact hoptions.insert (by decide) _
  cases source <;> cases h <;> exact hrooted

/-! ## Configuring -/

def configure (root : Path) (argPaths : List (List Text)) : Action Options := do
  let table ← loadProjectOptions root (argPathsOption argPaths)
  let w ← Action.workspace
  Action.ofExcept (Options.ofValue (.dict table.toDict) w.cwd w.cwd w.homes)

end Docsmith
