import Docsmith.Proofs.Frames
import Docsmith.Proofs.Misconfiguration

/-!
# What the section of a project file says

The options of a project stand in a section of one of its files, under keys of any spelling.
Once loaded, a key has the value of the last entry that spells it.
-/

namespace Docsmith

/-! ## Tables -/

namespace Table

variable {κ ν : Type} [DecidableEq κ]

theorem get?_cons (e : κ × ν) (t : Table κ ν) (k : κ) :
    get? (e :: t) k = if e.1 = k then some e.2 else t.get? k := by
  by_cases h : e.1 = k <;> simp [get?, h]

theorem get?_eq_none {t : Table κ ν} {k : κ} (h : k ∉ t.map Prod.fst) : t.get? k = none := by
  have hnone (e : κ × ν) (he : e ∈ t) : e.1 ≠ k := fun hk => h (List.mem_map.2 ⟨e, he, hk⟩)
  rw [get?, List.find?_eq_none.2 (by simpa using hnone)]
  rfl

theorem get?_update {u : Table κ ν} (nodup : (u.map Prod.fst).Nodup) (t : Table κ ν) (k : κ) :
    (update t u).get? k = (u.get? k).or (t.get? k) := by
  induction u generalizing t with
  | nil => rfl
  | cons e u ih =>
      obtain ⟨hfirst, nodup⟩ := List.nodup_cons.1 nodup
      have hstep : update t (e :: u) = update (insert e.1 e.2 t) u := rfl
      rw [hstep, ih nodup, get?_cons]
      by_cases hk : e.1 = k
      · subst hk
        rw [if_pos rfl, get?_insert_self, get?_eq_none hfirst]
        rfl
      · rw [if_neg hk, get?_insert_of_ne (Ne.symm hk)]

theorem get?_erase {k l : κ} (h : k ≠ l) (t : Table κ ν) : (t.erase l).get? k = t.get? k := by
  induction t with
  | nil => rfl
  | cons e t ih =>
      rw [get?_cons, ← ih, erase, List.filter_cons]
      split
      case isTrue => exact get?_cons _ _ _
      case isFalse hl =>
        have hl : e.1 = l := by simpa using hl
        rw [if_neg (fun hk => h (hk.symm.trans hl))]
        rfl

theorem filter_insert {keep : κ → Bool} {k : κ} (h : keep k = false) (v : ν) (t : Table κ ν) :
    (insert k v t).filter (fun e => keep e.1) = t.filter fun e => keep e.1 := by
  induction t with
  | nil => simp [insert, h]
  | cons e t ih =>
      by_cases hk : e.1 = k
      · simp [insert, hk, h]
      · simp [insert, hk, List.filter_cons, ih]

theorem filter_update {keep : κ → Bool} {u : Table κ ν} (h : ∀ k ∈ u.map Prod.fst, keep k = false)
    (t : Table κ ν) : (update t u).filter (fun e => keep e.1) = t.filter fun e => keep e.1 := by
  induction u generalizing t with
  | nil => rfl
  | cons e u ih =>
      obtain ⟨hfirst, hrest⟩ := List.forall_mem_cons.1 h
      have hstep : update t (e :: u) = update (insert e.1 e.2 t) u := rfl
      rw [hstep, ih hrest, filter_insert hfirst]

end Table

/-! ## Spellings -/

/-- The value under a normal key: that of the last entry that spells it. -/
def Dict.spelled? (d : Dict) (key : Text) : Option Value :=
  (d.reverse.find? fun e => normalKey e.1 = key).map Prod.snd

theorem OptionTable.normalize_concat (d : Dict) (e : Value × Value) :
    normalize (d ++ [e]) = Table.insert (normalKey e.1) e.2 (normalize d) := by
  simp [normalize]

theorem OptionTable.get?_normalize (d : Dict) (key : Text) :
    Table.get? (normalize d) key = Dict.spelled? d key := by
  induction d using List.reverseRecOn with
  | nil => rfl
  | append_singleton d e ih =>
      rw [normalize_concat, Dict.spelled?, List.reverse_append, List.reverse_singleton,
        List.singleton_append, List.find?_cons]
      by_cases hkey : normalKey e.1 = key
      · subst hkey
        simp [Table.get?_insert_self]
      · rw [Table.get?_insert_of_ne (Ne.symm hkey), ih]
        simp [hkey, Dict.spelled?]

theorem OptionTable.ofValue_dict_eq_ok_iff {d : Dict} {t : OptionTable} :
    ofValue (.dict d) = .ok t ↔ (∀ e ∈ d, e.1.writable = true) ∧ t = normalize d := by
  unfold ofValue
  dsimp only
  split
  case isTrue writable =>
    rw [List.all_eq_true] at writable
    rw [Except.ok.injEq, eq_comm]
    exact (and_iff_right writable).symm
  case isFalse unwritable =>
    rw [List.all_eq_true] at unwritable
    exact iff_of_false nofun fun h => unwritable h.1

theorem OptionTable.get?_of_ofValue {d : Dict} {t : OptionTable} (h : ofValue (.dict d) = .ok t)
    (key : Text) : Table.get? t key = Dict.spelled? d key := by
  obtain ⟨-, rfl⟩ := ofValue_dict_eq_ok_iff.1 h
  exact get?_normalize d key

/-! ## Sections -/

open ProjectFile

/-- The section of options in the project files of a directory, as it is spelled there: all of
the configuration file if it says something, or else what the dependency file says at the paths
of keys, or else the section in the profiles of the project definition. -/
inductive SectionOf (w : Workspace) (root : Path) (paths : List (List Value)) : Dict → Prop
  | config {text : Text} {d : Dict}
      (present : w.tree.exists? w.cwd (Path.resolve w.cwd (configFile w root)) = true)
      (read : w.tree.readText w.cwd (Path.resolve w.cwd (configFile w root)) = .ok text)
      (value : configValue (Path.resolve w.cwd (configFile w root)) text = .ok (.dict d))
      (full : d ≠ []) : SectionOf w root paths d
  | dependencies {line : Nat} {items rest : List Form} {data : Value}
      (unconfigured : (loadConfig root w).1 = .ok [])
      (present : w.tree.exists? w.cwd (root.child "deps.edn") = true)
      (holds : Holds w (root.child "deps.edn") (.coll .map line items :: rest))
      (value : (Form.coll .map line items).toValue = .ok data) :
      SectionOf w root paths (sectionsOver data paths [])
  | definition {fs : List Form} {name version : Form} {rest : List Form} {values : OptionTable}
      {d : Dict} (unconfigured : (loadConfig root w).1 = .ok [])
      (absent : w.tree.exists? w.cwd (root.child "deps.edn") = false)
      (present : w.tree.exists? w.cwd (root.child "project.clj") = true)
      (holds : Holds w (root.child "project.clj") fs)
      (defines : definition? fs = some (name, version, rest))
      (valued : (valuesOf (root.child "project.clj") (properties rest) w).1 = .ok values)
      (profile : profile? values = some (.dict d)) : SectionOf w root paths d
  | unprofiled {fs : List Form} {name version : Form} {rest : List Form} {values : OptionTable}
      (unconfigured : (loadConfig root w).1 = .ok [])
      (absent : w.tree.exists? w.cwd (root.child "deps.edn") = false)
      (present : w.tree.exists? w.cwd (root.child "project.clj") = true)
      (holds : Holds w (root.child "project.clj") fs)
      (defines : definition? fs = some (name, version, rest))
      (valued : (valuesOf (root.child "project.clj") (properties rest) w).1 = .ok values)
      (profile : ∀ d, profile? values ≠ some (.dict d)) : SectionOf w root paths []
  | nowhere (unconfigured : (loadConfig root w).1 = .ok [])
      (absent : w.tree.exists? w.cwd (root.child "deps.edn") = false)
      (undefined : w.tree.exists? w.cwd (root.child "project.clj") = false) :
      SectionOf w root paths []

def ownKeys : List Text := ["name", "version", "description"]

variable {w w' : Workspace} {root : Path} {paths : List (List Value)} {t : OptionTable}

theorem eq_of_fileExists {p : Path} {found : Bool}
    (h : Action.fileExists p w = (.ok found, w')) :
    w.tree.exists? w.cwd p = found ∧ w = w' :=
  ⟨Except.ok.inj (congrArg Prod.fst h), congrArg Prod.snd h⟩

theorem eq_of_resolvedPath {p q : Path} (h : resolvedPath p w = (.ok q, w')) :
    fullPath w.homes w.cwd p = .ok q ∧ w = w' :=
  Action.eq_of_ofExcept h

theorem eq_resolve_of_resolve? {cwd p q : Path}
    (h : (Path.resolve? cwd p).mapError Failure.ofName = .ok q) : Path.resolve cwd p = q := by
  have hok := eq_ok_of_mapError_eq_ok h
  unfold Path.resolve? at hok
  split at hok
  · cases hok
  · exact Except.ok.inj hok

theorem exists_resolve_of_fullPath {homes : Homes} {cwd p dir : Path}
    (h : fullPath homes cwd p = .ok dir) :
    ∃ home, p.expand? homes = .ok home ∧ dir = Path.resolve cwd home := by
  obtain ⟨home, hexpand, hresolve⟩ := exists_of_bind_eq_ok h
  exact ⟨home, eq_ok_of_mapError_eq_ok hexpand, (eq_resolve_of_resolve? hresolve).symm⟩

theorem user?_of_fullPath {homes : Homes} {cwd p dir : Path} (h : fullPath homes cwd p = .ok dir) :
    dir.user? = none := by
  obtain ⟨home, -, rfl⟩ := exists_resolve_of_fullPath h
  exact Path.user?_resolve cwd home

theorem exists_of_loadConfig (plain : root.user? = none)
    (h : loadConfig root w = (.ok t, w')) (full : t ≠ []) :
    ∃ text d, w.tree.exists? w.cwd (Path.resolve w.cwd (configFile w root)) = true ∧
      w.tree.readText w.cwd (Path.resolve w.cwd (configFile w root)) = .ok text ∧
      configValue (Path.resolve w.cwd (configFile w root)) text = .ok (.dict d) ∧
      OptionTable.ofValue (.dict d) = .ok t := by
  obtain ⟨file, mid, hfile, h⟩ := Action.exists_of_bind h
  obtain rfl : w = mid := (still_configPath root w).symm.trans (congrArg Prod.snd hfile)
  have hpath : (configPath root w).1 = .ok file := congrArg Prod.fst hfile
  rw [configPath_fst plain] at hpath
  rw [eq_resolve_of_resolve? hpath]
  obtain ⟨found, mid, hfound, h⟩ := Action.exists_of_bind h
  obtain ⟨hpresent, rfl⟩ := eq_of_fileExists hfound
  cases found with
  | false =>
      cases h
      exact absurd rfl full
  | true =>
      obtain ⟨text, mid, htext, h⟩ := Action.exists_of_bind h
      obtain ⟨hread, rfl⟩ := Action.eq_of_ofExcept
        (e := (w.tree.readText w.cwd file).mapError Failure.ofText) htext
      obtain ⟨v, mid, hvalue, h⟩ := Action.exists_of_bind h
      obtain ⟨hgiven, rfl⟩ := Action.eq_of_ofExcept hvalue
      cases v with
      | dict d =>
          exact ⟨text, d, hpresent, eq_ok_of_mapError_eq_ok hread, hgiven,
            (Action.eq_of_ofExcept h).1⟩
      | _ => cases h

theorem exists_of_dependencyOptions {p : Path}
    (h : dependencyOptions p (.list (paths.map .list)) w = (.ok t, w')) :
    ∃ line items rest data, Holds w p (.coll .map line items :: rest) ∧
      (Form.coll .map line items).toValue = .ok data ∧
      ∀ key, t.get? key = Dict.spelled? (sectionsOver data paths []) key := by
  obtain ⟨fs, mid, hforms, h⟩ := Action.exists_of_bind h
  obtain rfl : w = mid := (still_forms p w).symm.trans (congrArg Prod.snd hforms)
  have holds := forms_eq_ok_iff.1 (congrArg Prod.fst hforms)
  split at h
  case h_1 line items rest =>
    obtain ⟨data, mid, hdata, h⟩ := Action.exists_of_bind h
    obtain rfl : w = mid := (still_valueOf p _ w).symm.trans (congrArg Prod.snd hdata)
    refine ⟨line, items, rest, data, holds, valueOf_eq_ok_iff.1 (congrArg Prod.fst hdata), ?_⟩
    have hmerged : ∃ merged last, sections p data (paths.map .list) [] w = (.ok merged, last) ∧
        Action.ofExcept (OptionTable.ofValue (.dict merged)) last = (.ok t, w') := by
      cases paths with
      | nil =>
          obtain ⟨keyPaths, mid, hkeyPaths, h⟩ := Action.exists_of_bind h
          cases hkeyPaths
          exact Action.exists_of_bind h
      | cons keys paths =>
          obtain ⟨keyPaths, mid, hkeyPaths, h⟩ := Action.exists_of_bind h
          cases hkeyPaths
          exact Action.exists_of_bind h
    obtain ⟨merged, last, hsections, hoptions⟩ := hmerged
    obtain rfl := eq_sectionsOver_of_sections hsections
    exact OptionTable.get?_of_ofValue (Action.eq_of_ofExcept hoptions).1
  case h_2 => cases h

theorem exists_of_definitionOptions {p : Path} (h : definitionOptions p w = (.ok t, w')) :
    ∃ fs name version rest values, Holds w p fs ∧
      definition? fs = some (name, version, rest) ∧
      (valuesOf p (properties rest) w).1 = .ok values ∧
      ((∃ d, profile? values = some (.dict d) ∧
          ∀ key ∉ ownKeys, t.get? key = Dict.spelled? d key) ∨
        ((∀ d, profile? values ≠ some (.dict d)) ∧ ∀ key ∉ ownKeys, t.get? key = none)) := by
  obtain ⟨fs, name, version, rest, values, own, holds, hdefines, hvalues, hgives, hkeys⟩ :=
    exists_own_of_definitionOptions h
  have hown {key : Text} (hkey : key ∉ ownKeys) : Table.get? own key = none :=
    Table.get?_eq_none (hkeys ▸ hkey)
  refine ⟨fs, name, version, rest, values, holds, hdefines, hvalues, ?_⟩
  rcases hgives with ⟨d, given, hprofile, hgiven, rfl⟩ | ⟨hprofile, rfl⟩
  · refine .inl ⟨d, hprofile, fun key hkey => ?_⟩
    rw [Table.get?_update (OptionTable.normal_of_ofValue hgiven).nodup, hown hkey, Option.or_none,
      OptionTable.get?_of_ofValue hgiven]
  · exact .inr ⟨hprofile, fun key hkey => hown hkey⟩

theorem exists_sectionOf_of_projectSection {source : Option Text} (plain : root.user? = none)
    (h : projectSection root (.list (paths.map .list)) w = (.ok (source, t), w')) :
    ∃ d, SectionOf w root paths d ∧ ∀ key ∉ ownKeys, t.get? key = Dict.spelled? d key := by
  obtain ⟨config, mid, hconfig, h⟩ := Action.exists_of_bind h
  obtain rfl : w = mid := (still_loadConfig root w).symm.trans (congrArg Prod.snd hconfig)
  cases config with
  | cons e config =>
      cases h
      obtain ⟨text, d, present, read, value, hofValue⟩ :=
        exists_of_loadConfig plain hconfig (List.cons_ne_nil e config)
      have full : d ≠ [] := by
        rintro rfl
        cases hofValue
      exact ⟨d, .config present read value full,
        fun key _ => OptionTable.get?_of_ofValue hofValue key⟩
  | nil =>
      have unconfigured : (loadConfig root w).1 = .ok [] := congrArg Prod.fst hconfig
      rw [if_neg (by simp)] at h
      obtain ⟨found, mid, hfound, h⟩ := Action.exists_of_bind h
      obtain ⟨hdeps, rfl⟩ := eq_of_fileExists hfound
      cases found with
      | true =>
          obtain ⟨options, last, hoptions, h⟩ := Action.exists_of_bind h
          cases h
          obtain ⟨line, items, rest, data, holds, value, hget⟩ :=
            exists_of_dependencyOptions hoptions
          exact ⟨_, .dependencies unconfigured hdeps holds value, fun key _ => hget key⟩
      | false =>
          obtain ⟨found, mid, hfound, h⟩ := Action.exists_of_bind h
          obtain ⟨hproject, rfl⟩ := eq_of_fileExists hfound
          cases found with
          | true =>
              obtain ⟨options, last, hoptions, h⟩ := Action.exists_of_bind h
              cases h
              obtain ⟨fs, name, version, rest, values, holds, defines, valued, hget⟩ :=
                exists_of_definitionOptions hoptions
              rcases hget with ⟨d, hprofile, hget⟩ | ⟨hprofile, hget⟩
              · exact ⟨d, .definition unconfigured hdeps hproject holds defines valued hprofile, hget⟩
              · exact ⟨[], .unprofiled unconfigured hdeps hproject holds defines valued hprofile,
                  hget⟩
          | false =>
              cases h
              exact ⟨[], .nowhere unconfigured hdeps hproject, fun key _ => rfl⟩

end Docsmith
