import Docsmith.Cli.Command
import Docsmith.Proofs.Sections

/-!
# Which value an option takes

A flag wins over the section of the project file, whatever the spelling of the keys there, and
the section wins over the default.  The options that no flag can set are the same whatever
flags are given.
-/

namespace Docsmith

namespace Options

/-! ## One option -/

def flagKeys : List Text :=
  ["language", "writer", "output_path", "source_paths", "namespaces", "exclude_vars", "doc_paths"]

def withFlags (o p : Options) : Options :=
  { o with
    language := p.language, writer := p.writer, outputPath := p.outputPath,
    sourcePaths := p.sourcePaths, namespaces := p.namespaces, excludeVars := p.excludeVars,
    docPaths := p.docPaths }

theorem ite_eq_map {α β : Type} {c : Prop} [Decidable c] {f : α → β} {x y : Except Failure α}
    {x' y' : Except Failure β} (hx : c → x' = x.map f) (hy : ¬c → y' = y.map f) :
    (if c then x' else y') = (if c then x else y).map f := by
  split
  · exact hx ‹_›
  · exact hy ‹_›

/-- An option that no flag can set is set in the same way whatever the flags are. -/
theorem set_withFlags {key : Text} (h : key ∉ flagKeys) (o p : Options) (v : Value) :
    (o.withFlags p).set key v = (o.set key v).map (·.withFlags p) := by
  have hflag {k : Text} (hk : k ∈ flagKeys) : key ≠ k := fun heq => h (heq ▸ hk)
  have hlanguage := hflag (k := "language") (by decide)
  have hsources := hflag (k := "source_paths") (by decide)
  have hnamespaces := hflag (k := "namespaces") (by decide)
  have hexclude := hflag (k := "exclude_vars") (by decide)
  have hdocPaths := hflag (k := "doc_paths") (by decide)
  have hwriter := hflag (k := "writer") (by decide)
  have houtput := hflag (k := "output_path") (by decide)
  unfold set
  refine ite_eq_map (absurd · hlanguage) fun _ => ?_
  refine ite_eq_map (absurd · hsources) fun _ => ?_
  refine ite_eq_map (absurd · hnamespaces) fun _ => ?_
  refine ite_eq_map (absurd · hexclude) fun _ => ?_
  refine ite_eq_map (absurd · hdocPaths) fun _ => ?_
  refine ite_eq_map (fun _ => ?_) fun _ => ?_
  · cases toDocFiles v <;> rfl
  refine ite_eq_map (fun _ => ?_) fun _ => ?_
  · cases toMetadata v <;> rfl
  refine ite_eq_map (absurd · hwriter) fun _ => ?_
  refine ite_eq_map (absurd · houtput) fun _ => ?_
  refine ite_eq_map (fun _ => ?_) fun _ => ?_
  · cases toTextOrNone v <;> rfl
  refine ite_eq_map (fun _ => ?_) fun _ => ?_
  · cases toTextOrNone v <;> rfl
  refine ite_eq_map (fun _ => ?_) fun _ => ?_
  · rw [show (o.withFlags p).root = o.root from rfl]
    cases toCommit o.root v <;> rfl
  refine ite_eq_map (fun _ => ?_) fun _ => ?_
  · cases toTexts v <;> rfl
  refine ite_eq_map (fun _ => ?_) fun _ => ?_
  · cases toTextOrNone v <;> rfl
  refine ite_eq_map (fun _ => ?_) fun _ => ?_
  · cases toTextOrNone v <;> rfl
  refine ite_eq_map (fun _ => ?_) fun _ => ?_
  · cases toTextOrNone v <;> rfl
  exact ite_eq_map (fun _ => rfl) fun _ => rfl

/-- What it means that an option is set: the option of a flag takes the value that is read, or
the key is none of a flag and those options stay. -/
inductive Sets (o : Options) (v : Value) : Text → Options → Prop
  | language {t : Text} (read : (toText v).map dropColons = .ok t) :
      Sets o v "language" { o with language := t }
  | writer {t : Text} (read : toText v = .ok t) : Sets o v "writer" { o with writer := t }
  | outputPath {t : Text} (read : toText v = .ok t) :
      Sets o v "output_path" { o with outputPath := t }
  | sourcePaths {ts : List Text} (read : toTexts v = .ok ts) :
      Sets o v "source_paths" { o with sourcePaths := ts }
  | namespaces {selection : Option (List Selector)} (read : toSelection v = .ok selection) :
      Sets o v "namespaces" { o with namespaces := selection }
  | excludeVars {exclusion : Option Regex} (read : toExclusion v = .ok exclusion) :
      Sets o v "exclude_vars" { o with excludeVars := exclusion }
  | docPaths {ts : List Text} (read : toTexts v = .ok ts) :
      Sets o v "doc_paths" { o with docPaths := ts }
  | other {key : Text} {o' : Options} (free : key ∉ flagKeys) (kept : o'.withFlags o = o') :
      Sets o v key o'

theorem sets_of_set {o o' : Options} {key : Text} {v : Value} (h : o.set key v = .ok o') :
    Sets o v key o' := by
  by_cases hkey : key ∈ flagKeys
  · simp only [flagKeys, List.mem_cons, List.not_mem_nil, or_false] at hkey
    rcases hkey with rfl | rfl | rfl | rfl | rfl | rfl | rfl
    · obtain ⟨t, ht, h⟩ := exists_of_bind_eq_ok (show (toText v >>= _) = _ from h)
      cases h
      exact .language (by rw [ht]; rfl)
    · obtain ⟨t, ht, h⟩ := exists_of_bind_eq_ok (show (toText v >>= _) = _ from h)
      cases h
      exact .writer ht
    · obtain ⟨t, ht, h⟩ := exists_of_bind_eq_ok (show (toText v >>= _) = _ from h)
      cases h
      exact .outputPath ht
    · obtain ⟨t, ht, h⟩ := exists_of_bind_eq_ok (show (toTexts v >>= _) = _ from h)
      cases h
      exact .sourcePaths ht
    · obtain ⟨t, ht, h⟩ := exists_of_bind_eq_ok (show (toSelection v >>= _) = _ from h)
      cases h
      exact .namespaces ht
    · obtain ⟨t, ht, h⟩ := exists_of_bind_eq_ok (show (toExclusion v >>= _) = _ from h)
      cases h
      exact .excludeVars ht
    · obtain ⟨t, ht, h⟩ := exists_of_bind_eq_ok (show (toTexts v >>= _) = _ from h)
      cases h
      exact .docPaths ht
  · have hsame : o.set key v = (o.set key v).map (·.withFlags o) := set_withFlags hkey o o v
    rw [h] at hsame
    exact .other hkey (Except.ok.inj hsame).symm

theorem Sets.withFlags_eq {o o' : Options} {key : Text} {v : Value} (h : Sets o v key o')
    (hkey : key ∈ flagKeys) (p : Options) : o'.withFlags p = o.withFlags p := by
  cases h with
  | other free => exact absurd hkey free
  | _ => rfl

end Options

/-! ## The options of flags -/

def Cli.several? (ts : List Text) : Option Value :=
  if ts.isEmpty then none else some (.list (ts.map .str))

def Cli.flagValues (a : Cli.Arguments) : Table Text (Option Value) :=
  [("language", a.language.map .str), ("writer", a.writer.map .str),
   ("output_path", a.outputPath.map .str), ("source_paths", several? a.sourcePaths),
   ("namespaces", several? a.namespaces), ("exclude_vars", a.excludeVars.map .str),
   ("doc_paths", several? a.docPaths)]

def Table.present {κ ν : Type} (t : Table κ (Option ν)) : Table κ ν :=
  t.filterMap fun e => e.2.map (e.1, ·)

theorem Table.keys_present {κ ν : Type} (t : Table κ (Option ν)) :
    (t.present.map Prod.fst).Sublist (t.map Prod.fst) := by
  induction t with
  | nil => exact .slnil
  | cons e t ih =>
      obtain ⟨k, v⟩ := e
      cases v with
      | none => exact ih.cons k
      | some v => exact ih.cons_cons k

theorem Table.get?_present {κ ν : Type} [DecidableEq κ] {t : Table κ (Option ν)}
    (nodup : (t.map Prod.fst).Nodup) (k : κ) : t.present.get? k = (t.get? k).join := by
  induction t with
  | nil => rfl
  | cons e t ih =>
      obtain ⟨l, v⟩ := e
      obtain ⟨hfirst, nodup⟩ := List.nodup_cons.1 nodup
      rw [get?_cons]
      by_cases hk : l = k
      · subst hk
        have habsent : get? (present t) l = none :=
          get?_eq_none fun hmem => hfirst ((keys_present t).subset hmem)
        cases v with
        | none => simpa [present] using habsent
        | some v => simp [present, get?_cons]
      · rw [if_neg hk, ← ih nodup]
        cases v with
        | none => rfl
        | some v => exact (get?_cons _ _ _).trans (if_neg hk)

theorem Cli.overrides_eq (a : Cli.Arguments) : overrides a = (flagValues a).present := by
  have hseveral (key : Text) (ts : List Text) (rest : Table Text (Option Value)) :
      (if ts.isEmpty then [] else [(key, Value.list (ts.map .str))]) ++ rest.present =
        Table.present ((key, several? ts) :: rest) := by
    cases ts <;> rfl
  have hsingle (key : Text) (t : Option Text) (rest : Table Text (Option Value)) :
      (t.map fun t => (key, Value.str t)).toList ++ rest.present =
        Table.present ((key, t.map .str) :: rest) := by
    cases t <;> rfl
  have hnil : Table.present ([] : Table Text (Option Value)) = [] := rfl
  unfold overrides flagValues
  simp only [← hsingle, ← hseveral, hnil, List.append_assoc, List.append_nil]

theorem Cli.keys_overrides (a : Cli.Arguments) :
    ((overrides a).map Prod.fst).Sublist Options.flagKeys := by
  rw [overrides_eq]
  exact Table.keys_present (flagValues a)

theorem Cli.normal_overrides (a : Cli.Arguments) : (overrides a).Normal := by
  have hnormal : ∀ k ∈ Options.flagKeys, normalKey (.str k) = k := by decide
  have hnodup : Options.flagKeys.Nodup := by decide
  refine ⟨fun e he => ?_, (keys_overrides a).nodup hnodup⟩
  exact hnormal _ ((keys_overrides a).subset (List.mem_map_of_mem he))

/-- An option that a flag can set: what the flag gives, how a value is read, and that setting one
option takes it over or leaves it alone. -/
structure Setting (α : Type) where
  key : Text
  mem : key ∈ Options.flagKeys
  flag : Cli.Arguments → Option Value
  given (a : Cli.Arguments) : (Cli.flagValues a).get? key = some (flag a)
  get : Options → α
  get_default (r r' : Path) (c c' : Commit) (extra : Dict) :
    get { root := r, commit := c, extra := extra } = get { root := r', commit := c' }
  read : Value → Except Failure α
  step {o o' : Options} {k : Text} {v : Value} (set : o.set k v = .ok o') :
    k = key ∧ read v = .ok (get o') ∨ k ≠ key ∧ get o' = get o

namespace Setting

open Options

def language : Setting Text where
  key := "language"
  mem := by decide
  flag a := a.language.map .str
  given _ := rfl
  get := Options.language
  get_default _ _ _ _ _ := rfl
  read v := (toText v).map dropColons
  step h := by
    cases sets_of_set h with
    | language read => exact .inl ⟨rfl, read⟩
    | other free kept =>
        exact .inr ⟨fun hk => free (hk ▸ by decide), (congrArg Options.language kept).symm⟩
    | _ => exact .inr ⟨by decide, rfl⟩

def writer : Setting Text where
  key := "writer"
  mem := by decide
  flag a := a.writer.map .str
  given _ := rfl
  get := Options.writer
  get_default _ _ _ _ _ := rfl
  read v := toText v
  step h := by
    cases sets_of_set h with
    | writer read => exact .inl ⟨rfl, read⟩
    | other free kept =>
        exact .inr ⟨fun hk => free (hk ▸ by decide), (congrArg Options.writer kept).symm⟩
    | _ => exact .inr ⟨by decide, rfl⟩

def outputPath : Setting Text where
  key := "output_path"
  mem := by decide
  flag a := a.outputPath.map .str
  given _ := rfl
  get := Options.outputPath
  get_default _ _ _ _ _ := rfl
  read v := toText v
  step h := by
    cases sets_of_set h with
    | outputPath read => exact .inl ⟨rfl, read⟩
    | other free kept =>
        exact .inr ⟨fun hk => free (hk ▸ by decide), (congrArg Options.outputPath kept).symm⟩
    | _ => exact .inr ⟨by decide, rfl⟩

def sourcePaths : Setting (List Text) where
  key := "source_paths"
  mem := by decide
  flag a := Cli.several? a.sourcePaths
  given _ := rfl
  get := Options.sourcePaths
  get_default _ _ _ _ _ := rfl
  read v := toTexts v
  step h := by
    cases sets_of_set h with
    | sourcePaths read => exact .inl ⟨rfl, read⟩
    | other free kept =>
        exact .inr ⟨fun hk => free (hk ▸ by decide), (congrArg Options.sourcePaths kept).symm⟩
    | _ => exact .inr ⟨by decide, rfl⟩

def namespaces : Setting (Option (List Selector)) where
  key := "namespaces"
  mem := by decide
  flag a := Cli.several? a.namespaces
  given _ := rfl
  get := Options.namespaces
  get_default _ _ _ _ _ := rfl
  read v := toSelection v
  step h := by
    cases sets_of_set h with
    | namespaces read => exact .inl ⟨rfl, read⟩
    | other free kept =>
        exact .inr ⟨fun hk => free (hk ▸ by decide), (congrArg Options.namespaces kept).symm⟩
    | _ => exact .inr ⟨by decide, rfl⟩

def excludeVars : Setting (Option Regex) where
  key := "exclude_vars"
  mem := by decide
  flag a := a.excludeVars.map .str
  given _ := rfl
  get := Options.excludeVars
  get_default _ _ _ _ _ := rfl
  read v := toExclusion v
  step h := by
    cases sets_of_set h with
    | excludeVars read => exact .inl ⟨rfl, read⟩
    | other free kept =>
        exact .inr ⟨fun hk => free (hk ▸ by decide), (congrArg Options.excludeVars kept).symm⟩
    | _ => exact .inr ⟨by decide, rfl⟩

def docPaths : Setting (List Text) where
  key := "doc_paths"
  mem := by decide
  flag a := Cli.several? a.docPaths
  given _ := rfl
  get := Options.docPaths
  get_default _ _ _ _ _ := rfl
  read v := toTexts v
  step h := by
    cases sets_of_set h with
    | docPaths read => exact .inl ⟨rfl, read⟩
    | other free kept =>
        exact .inr ⟨fun hk => free (hk ▸ by decide), (congrArg Options.docPaths kept).symm⟩
    | _ => exact .inr ⟨by decide, rfl⟩

variable {α : Type} (s : Setting α)

/-- The option has the value that is given, read, or else it is as before. -/
def Takes (given : Option Value) (before : α) (o : Options) : Prop :=
  match given with
  | some v => s.read v = .ok (s.get o)
  | none => s.get o = before

theorem takes_of_foldlM {t : OptionTable} (nodup : (t.map Prod.fst).Nodup) {o o' : Options}
    (h : t.foldlM (fun o e => o.set e.1 e.2) o = .ok o') :
    s.Takes (t.get? s.key) (s.get o) o' := by
  induction t generalizing o with
  | nil =>
      cases h
      exact rfl
  | cons e t ih =>
      obtain ⟨hfirst, nodup⟩ := List.nodup_cons.1 nodup
      rw [List.foldlM_cons] at h
      obtain ⟨next, hset, h⟩ := exists_of_bind_eq_ok h
      have hrest := ih nodup h
      rw [Table.get?_cons]
      rcases s.step hset with ⟨hkey, hread⟩ | ⟨hkey, hframe⟩
      · rw [← hkey, Table.get?_eq_none hfirst] at hrest
        rw [if_pos hkey]
        exact hread.trans (congrArg _ hrest.symm)
      · rw [if_neg hkey, ← hframe]
        exact hrest

/-- The option is what the precedence says: from the flag, or else from the section, or else
the default. -/
def Settled (a : Cli.Arguments) (d : Dict) (o : Options) : Prop :=
  s.Takes ((s.flag a).or (Dict.spelled? d s.key)) (s.get { root := o.root, commit := o.commit }) o

end Setting

/-! ## Tables of options -/

namespace Options

theorem foldlM_withFlags {t : OptionTable} {o o' : Options}
    (h : t.foldlM (fun o e => o.set e.1 e.2) o = .ok o') (p : Options) :
    (t.filter fun e => e.1 ∉ flagKeys).foldlM (fun o e => o.set e.1 e.2) (o.withFlags p) =
      .ok (o'.withFlags p) := by
  induction t generalizing o with
  | nil =>
      cases h
      rfl
  | cons e t ih =>
      obtain ⟨k, v⟩ := e
      rw [List.foldlM_cons] at h
      obtain ⟨next, hset, h⟩ := exists_of_bind_eq_ok h
      by_cases hkey : k ∈ flagKeys
      · rw [List.filter_cons_of_neg (by simpa using hkey),
          ← (sets_of_set hset).withFlags_eq hkey p]
        exact ih h
      · rw [List.filter_cons_of_pos (by simpa using hkey), List.foldlM_cons, set_withFlags hkey,
          hset]
        exact ih h

variable {t : OptionTable} {a : Cli.Arguments} {start cwd : Path} {homes : Homes} {o : Options}

theorem takes_of_ofTable {α : Type} (s : Setting α) (normal : t.Normal)
    (h : ofTable (Table.update t (Cli.overrides a)) start cwd homes = .ok o) :
    s.Takes ((s.flag a).or (t.get? s.key)) (s.get { root := o.root, commit := o.commit }) o := by
  have hkeys : ∀ k ∈ flagKeys, k ≠ "root_path" ∧ k ≠ "extra" := by decide
  obtain ⟨hroot, hextra⟩ := hkeys s.key s.mem
  have hnormal := normal.update (Cli.normal_overrides a)
  have hgiven : (Cli.overrides a).get? s.key = s.flag a := by
    rw [Cli.overrides_eq, Table.get?_present (show (Cli.flagValues a |>.map Prod.fst).Nodup from
      (by decide : flagKeys.Nodup)), s.given]
    rfl
  obtain ⟨root, -, h⟩ := exists_of_bind_eq_ok h
  have htakes := s.takes_of_foldlM ((hnormal.erase "root_path").erase "extra").nodup h
  rwa [Table.get?_erase hextra, Table.get?_erase hroot,
    Table.get?_update (Cli.normal_overrides a).nodup, hgiven,
    s.get_default _ o.root _ o.commit] at htakes

theorem withFlags_of_ofTable {a' : Cli.Arguments} {o' : Options}
    (h : ofTable (Table.update t (Cli.overrides a)) start cwd homes = .ok o)
    (h' : ofTable (Table.update t (Cli.overrides a')) start cwd homes = .ok o') :
    o'.withFlags o = o := by
  have hget (a : Cli.Arguments) {key : Text} (hkey : key ∉ flagKeys) :
      (Table.update t (Cli.overrides a)).get? key = t.get? key := by
    rw [Table.get?_update (Cli.normal_overrides a).nodup,
      Table.get?_eq_none fun hmem => hkey ((Cli.keys_overrides a).subset hmem)]
    rfl
  have hrest (a : Cli.Arguments) :
      List.filter (fun e => e.1 ∉ flagKeys)
          (((Table.update t (Cli.overrides a)).erase "root_path").erase "extra") =
        List.filter (fun e => e.1 ∉ flagKeys) ((t.erase "root_path").erase "extra") := by
    have hflags : ∀ k ∈ (Cli.overrides a).map Prod.fst, decide (k ∉ flagKeys) = false := by
      intro k hk
      simpa using (Cli.keys_overrides a).subset hk
    simp only [Table.erase, List.filter_comm (fun e : Text × Value => decide (e.1 ∉ flagKeys)),
      Table.filter_update hflags]
  obtain ⟨root, hroot, h⟩ := exists_of_bind_eq_ok h
  obtain ⟨root', hroot', h'⟩ := exists_of_bind_eq_ok h'
  rw [hget _ (by decide)] at hroot hroot' h h'
  obtain rfl : root = root' := Except.ok.inj (hroot.symm.trans hroot')
  have hothers := foldlM_withFlags h o
  have hothers' := foldlM_withFlags h' o
  rw [hrest] at hothers hothers'
  exact Except.ok.inj (hothers'.symm.trans hothers)

end Options

/-! ## The command -/

namespace Cli

def Arguments.keyPaths (a : Arguments) : List (List Value) :=
  Docsmith.keyPaths (a.argPaths.map (Text.splitOn '.'))

theorem exists_of_baseOptions (a : Arguments) :
    ∃ given, OptionTable.ofValue (baseOptions a) = .ok given ∧
      Table.erase given "arg_paths" = [] ∧
      ∀ root, projectSection root ((Table.get? given "arg_paths").getD .null) =
        projectSection root (.list (a.keyPaths.map .list)) := by
  unfold baseOptions Arguments.keyPaths
  cases a.argPaths with
  | nil => exact ⟨[], rfl, rfl, fun root => rfl⟩
  | cons t ts =>
      refine ⟨[("arg_paths", .list ((t :: ts).map keyPath))], rfl, rfl, fun root => ?_⟩
      have hpaths : (t :: ts).map keyPath =
          (Docsmith.keyPaths ((t :: ts).map (Text.splitOn '.'))).map .list := by
        simp only [Docsmith.keyPaths, List.map_map]
        rfl
      rw [← hpaths]
      rfl

theorem exists_sectionOf {a : Arguments} {w last : Workspace} {project : OptionTable}
    (h : loadProjectOptions (Path.ofText a.path) (baseOptions a) w = (.ok project, last)) :
    ∃ dir d, fullPath w.homes w.cwd (Path.ofText a.path) = .ok dir ∧
      SectionOf w dir a.keyPaths d ∧
      ∀ key ∉ ownKeys, key ≠ "root_path" → project.get? key = Dict.spelled? d key := by
  obtain ⟨given, hbase, hnone, hpaths⟩ := exists_of_baseOptions a
  obtain ⟨dir, mid, hdir, h⟩ := Action.exists_of_bind h
  obtain ⟨hpath, rfl⟩ := eq_of_resolvedPath hdir
  obtain ⟨given', mid, hgiven, h⟩ := Action.exists_of_bind h
  obtain ⟨hofValue, rfl⟩ := Action.eq_of_ofExcept hgiven
  obtain rfl : given = given' := Except.ok.inj (hbase.symm.trans hofValue)
  obtain ⟨⟨source, found⟩, mid, hfound, h⟩ := Action.exists_of_bind h
  rw [hpaths] at hfound
  obtain ⟨d, hsection, hget⟩ := exists_sectionOf_of_projectSection (user?_of_fullPath hpath) hfound
  refine ⟨dir, d, hpath, hsection, fun key hown hroot => ?_⟩
  have hupdate : Table.get? (Table.update (Table.erase given "arg_paths") found) key =
      Dict.spelled? d key := by
    rw [hnone, Table.get?_update (normal_of_projectSection hfound).nodup, hget key hown]
    exact Option.or_none
  have hproject : project = if Table.has (Table.update (Table.erase given "arg_paths") found)
      "root_path" then Table.update (Table.erase given "arg_paths") found
      else Table.insert "root_path" (.str dir.text)
        (Table.update (Table.erase given "arg_paths") found) := by
    cases source <;> cases h <;> rfl
  rw [hproject, ← hupdate]
  split
  · rfl
  · exact Table.get?_insert_of_ne hroot _ _

/-- The options that the command builds from its arguments, before it lists and runs them. -/
def built (a : Arguments) (w : Workspace) : Except Failure Options := do
  let (loaded, mid) := loadProjectOptions (Path.ofText a.path) (baseOptions a) w
  Options.ofTable (Table.update (← loaded) (overrides a)) mid.cwd mid.cwd mid.homes

theorem built_eq {a : Arguments} {w mid : Workspace} {project : OptionTable}
    (h : loadProjectOptions (Path.ofText a.path) (baseOptions a) w = (.ok project, mid)) :
    built a w = Options.ofTable (Table.update project (overrides a)) mid.cwd mid.cwd mid.homes := by
  rw [built, h]
  rfl

def runWith (table : OptionTable) (o : Options) : Action Options := do
  Action.logAs logger .info ("Codox options:\n" ++ (← listing table))
  let _ ← Run.generate o
  return o

theorem document_runs_built (a : Arguments) (w : Workspace) :
    (∃ f, built a w = .error f ∧ (document a w).1 = .error f) ∨
      ∃ o table mid, built a w = .ok o ∧ document a w = runWith table o mid := by
  match h : loadProjectOptions (Path.ofText a.path) (baseOptions a) w with
  | (.error f, mid) =>
      refine .inl ⟨f, by rw [built, h]; rfl, ?_⟩
      rw [document, Action.bind_apply, h]
  | (.ok project, mid) =>
      rw [built_eq h, document, Action.bind_apply, h]
      cases hoptions :
          Options.ofTable (Table.update project (overrides a)) mid.cwd mid.cwd mid.homes with
      | error f =>
          refine .inl ⟨f, rfl, ?_⟩
          change ((Action.ofExcept (Options.ofTable _ mid.cwd mid.cwd mid.homes) >>= _) mid).1 = _
          rw [hoptions, Action.bind_apply]
          rfl
      | ok o =>
          refine .inr ⟨o, Table.update project (overrides a), mid, rfl, ?_⟩
          change (Action.ofExcept (Options.ofTable _ mid.cwd mid.cwd mid.homes) >>= _) mid = _
          rw [hoptions, Action.bind_apply]
          rfl

/-- Of all options that the command builds for a project on which loading succeeds, whatever
flags are given: each option of a flag is settled by the flag, then by the section of the project
files under any spelling of the key, then by the default, and all other options are the same.
These options are the ones that it runs. -/
theorem options_by_precedence {path : Text} {argPaths : List Text} {w mid : Workspace}
    {project : OptionTable}
    (loaded : loadProjectOptions (Path.ofText path)
      (baseOptions { path := path, argPaths := argPaths }) w = (.ok project, mid)) :
    (∃ dir d, fullPath w.homes w.cwd (Path.ofText path) = .ok dir ∧
      SectionOf w dir (keyPaths (argPaths.map (Text.splitOn '.'))) d ∧
      ∀ a o, a.path = path → a.argPaths = argPaths → built a w = .ok o →
        (Setting.language.Settled a d o ∧ Setting.writer.Settled a d o ∧
          Setting.outputPath.Settled a d o ∧ Setting.sourcePaths.Settled a d o ∧
          Setting.namespaces.Settled a d o ∧ Setting.excludeVars.Settled a d o ∧
          Setting.docPaths.Settled a d o) ∧
        ∀ a' o', a'.path = path → a'.argPaths = argPaths → built a' w = .ok o' →
          o'.withFlags o = o) ∧
    ∀ a, (∃ f, built a w = .error f ∧ (document a w).1 = .error f) ∨
      ∃ o table mid, built a w = .ok o ∧ document a w = runWith table o mid := by
  have hbuilt {a : Arguments} (hpath : a.path = path) (hargs : a.argPaths = argPaths) :
      built a w =
        Options.ofTable (Table.update project (overrides a)) mid.cwd mid.cwd mid.homes := by
    subst hpath hargs
    exact built_eq loaded
  obtain ⟨dir, d, hpath, hsection, hget⟩ := exists_sectionOf loaded
  have hsettled {α : Type} (s : Setting α) {a : Arguments} {o : Options} (hpath : a.path = path)
      (hargs : a.argPaths = argPaths) (h : built a w = .ok o) : s.Settled a d o := by
    have hkeys : ∀ k ∈ Options.flagKeys, k ∉ ownKeys ∧ k ≠ "root_path" := by decide
    obtain ⟨hown, hroot⟩ := hkeys s.key s.mem
    have htakes := Options.takes_of_ofTable s (normal_of_loadProjectOptions loaded)
      ((hbuilt hpath hargs).symm.trans h)
    rwa [hget s.key hown hroot] at htakes
  refine ⟨⟨dir, d, hpath, hsection, fun a o hpath hargs h => ⟨?_, ?_⟩⟩,
    fun a => document_runs_built a w⟩
  · exact ⟨hsettled _ hpath hargs h, hsettled _ hpath hargs h, hsettled _ hpath hargs h,
      hsettled _ hpath hargs h, hsettled _ hpath hargs h, hsettled _ hpath hargs h,
      hsettled _ hpath hargs h⟩
  · intro a' o' hpath' hargs' h'
    exact Options.withFlags_of_ofTable ((hbuilt hpath hargs).symm.trans h)
      ((hbuilt hpath' hargs').symm.trans h')

/-- A project whose dependency file spells the keys of options in two ways. -/
def spelledProject : Workspace :=
  let text : Text := "\x7b:codox \x7b:output-path \"out\" \":writer\" \"json\"\x7d\x7d"
  { cwd := ⟨true, ["p"]⟩,
    tree := ⟨[(["p"], .directory), (["p", "deps.edn"], .file (text.map fun c => c.toNat.toUInt8))]⟩ }

/-- The flags win over the keys of the project, and all else stays. -/
theorem options_by_precedence_spelled :
    ∃ plain flagged, built { argPaths := ["codox"] } spelledProject = .ok plain ∧
      built { argPaths := ["codox"], writer := some "html", sourcePaths := ["lib"] }
        spelledProject = .ok flagged ∧
      (plain.writer = "json" ∧ plain.outputPath = "out" ∧ plain.sourcePaths = ["src"]) ∧
      (flagged.writer = "html" ∧ flagged.outputPath = "out" ∧ flagged.sourcePaths = ["lib"]) ∧
      flagged.withFlags plain = plain := by
  have hloaded : (loadProjectOptions (Path.ofText ".") (baseOptions { argPaths := ["codox"] })
      spelledProject).1.toBool = true := by decide +kernel
  have hplain : (built { argPaths := ["codox"] } spelledProject).map
      (fun o => [o.writer, o.outputPath] ++ o.sourcePaths) = .ok ["json", "out", "src"] := by
    decide +kernel
  have hflagged : (built { argPaths := ["codox"], writer := some "html", sourcePaths := ["lib"] }
      spelledProject).map (fun o => [o.writer, o.outputPath] ++ o.sourcePaths) =
        .ok ["html", "out", "lib"] := by decide +kernel
  obtain ⟨plain, hbuilt, hvalues⟩ := exists_of_map_eq_ok hplain
  obtain ⟨flagged, hbuilt', hvalues'⟩ := exists_of_map_eq_ok hflagged
  simp only [List.cons_append, List.nil_append, List.cons.injEq] at hvalues hvalues'
  refine ⟨plain, flagged, hbuilt, hbuilt', hvalues, hvalues', ?_⟩
  match h : loadProjectOptions (Path.ofText ".") (baseOptions { argPaths := ["codox"] })
      spelledProject with
  | (.error f, mid) =>
      rw [h] at hloaded
      cases hloaded
  | (.ok project, mid) =>
      obtain ⟨⟨dir, d, -, -, hoptions⟩, -⟩ :=
        @options_by_precedence "." ["codox"] spelledProject mid project h
      exact (hoptions _ plain rfl rfl hbuilt).2 _ flagged rfl rfl hbuilt'

end Cli

end Docsmith
