import Docsmith.Pipeline.Provenance
import Docsmith.Proofs.Outcome

/-!
# The search for source paths

The search keeps the files it has looked for.  What it has kept is what it would find
again, so every variable gets the path that its own file has, whatever was searched before.
The files that it has kept without a path are those that are missing, each under the first
variable that has it, and the log says so of each of them once.
-/

namespace Docsmith

def Value.isFileName : Value → Bool
  | .null | .str _ => true
  | _ => false

theorem Value.exists_of_isFileName {v : Value} (h : v.isFileName = true) (htruthy : v.truthy = true) :
    ∃ s, v = .str s := by
  cases v with
  | str s => exact ⟨s, rfl⟩
  | null => cases htruthy
  | _ => cases h

section

variable (t : FileTree) (cwd root : Path) (roots : List Path)

def pathOfFile (file : Value) : Option Text :=
  match t.findSourceValue cwd file roots with
  | .ok found => found.map (FileTree.relativeTo cwd root)
  | .error _ => none

def VarFacts.withPath (f : VarFacts) (path : Option Text) : VarFacts :=
  match path with
  | some path => { f with path := .str path }
  | none => f

def VarFacts.located (f : VarFacts) : VarFacts :=
  if f.file.truthy then f.withPath (pathOfFile t cwd root roots f.file) else f

theorem findSourceValue_of_sameKey {v w : Value} (h : v.sameKey w = true) :
    t.findSourceValue cwd v roots = t.findSourceValue cwd w roots := by
  cases v with
  | str s => cases w <;> simp_all [Value.sameKey, Value.integer?]
  | path p => cases w <;> simp_all [Value.sameKey, Value.integer?]
  | _ => cases w <;> simp_all [Value.sameKey, Value.integer?, FileTree.findSourceValue]

def VarFacts.lost (f : VarFacts) : Bool :=
  f.file.truthy && (pathOfFile t cwd root roots f.file).isNone

def firstLost (fs : List VarFacts) : List VarFacts :=
  (fs.filter (VarFacts.lost t cwd root roots)).eraseDupsBy fun f g => g.file.sameKey f.file

/-- What is logged when the files of these variables are looked for in turn. -/
def missingRecords (fs : List VarFacts) : List LogRecord :=
  (firstLost t cwd root roots fs).map fun f => missingRecord f.name f.file roots

def VarFacts.unsearchable? (f : VarFacts) : Option Failure :=
  if f.file.truthy then
    if f.file.isKey then
      match t.findSourceValue cwd f.file roots with
      | .ok _ => none
      | .error e => some e
    else some .wrongKind
  else none

/-- What the search has kept and logged when it has come past some variables: all that it has
kept would be found again, and what is missing has been logged. -/
structure Search.After (visited : List VarFacts) (s : Search) : Prop where
  sound : ∀ e ∈ s.found, ∀ file, e.1.sameKey file = true →
    ∃ found, t.findSourceValue cwd file roots = .ok found ∧
      e.2 = found.map (FileTree.relativeTo cwd root)
  missing : (s.found.filter fun e => e.2.isNone).map Prod.fst =
    (firstLost t cwd root roots visited).map VarFacts.file
  log : s.log = missingRecords t cwd root roots visited

/-- The search comes past these variables and gives this result, or else it fails at the first
of them that cannot be looked for. -/
def Searching.Computes {α : Type} (x : Searching α) (fs : List VarFacts) (a : α) : Prop :=
  ∀ visited s, s.After t cwd root roots visited →
    match fs.findSome? (VarFacts.unsearchable? t cwd roots) with
    | some e => x s = .error e
    | none => ∃ s', x s = .ok (a, s') ∧ s'.After t cwd root roots (visited ++ fs)

end

/-! ## The first of each kind -/

theorem eraseDupsBy_loop_concat {α : Type} (r : α → α → Bool) (as bs : List α) (a : α) :
    List.eraseDupsBy.loop r (as ++ [a]) bs =
      if (List.eraseDupsBy.loop r as bs).any (r a) then List.eraseDupsBy.loop r as bs
      else List.eraseDupsBy.loop r as bs ++ [a] := by
  induction as generalizing bs with
  | nil =>
      simp only [List.nil_append, List.eraseDupsBy.loop, List.any_reverse]
      cases bs.any (r a) <;> simp
  | cons c as ih =>
      have hloop (l : List α) : List.eraseDupsBy.loop r (c :: l) bs =
          List.eraseDupsBy.loop r l (if bs.any (r c) then bs else c :: bs) := by
        rw [List.eraseDupsBy.loop]
        cases bs.any (r c) <;> rfl
      rw [List.cons_append, hloop, hloop]
      exact ih _

theorem eraseDupsBy_concat {α : Type} (r : α → α → Bool) (as : List α) (a : α) :
    (as ++ [a]).eraseDupsBy r =
      if (as.eraseDupsBy r).any (r a) then as.eraseDupsBy r else as.eraseDupsBy r ++ [a] :=
  eraseDupsBy_loop_concat r as [] a

section

variable {t : FileTree} {cwd root : Path} {roots : List Path} {visited : List VarFacts}
  {f : VarFacts}

theorem pathOfFile_of_ok {file : Value} {found : Option Path}
    (h : t.findSourceValue cwd file roots = .ok found) :
    pathOfFile t cwd root roots file = found.map (FileTree.relativeTo cwd root) := by
  rw [pathOfFile, h]

theorem firstLost_of_not_lost (h : f.lost t cwd root roots = false) :
    firstLost t cwd root roots (visited ++ [f]) = firstLost t cwd root roots visited := by
  simp [firstLost, List.filter_append, h]

theorem firstLost_of_lost (h : f.lost t cwd root roots = true) :
    firstLost t cwd root roots (visited ++ [f]) =
      if (firstLost t cwd root roots visited).any fun g => g.file.sameKey f.file then
        firstLost t cwd root roots visited
      else firstLost t cwd root roots visited ++ [f] := by
  have hfilter : (visited ++ [f]).filter (VarFacts.lost t cwd root roots) =
      visited.filter (VarFacts.lost t cwd root roots) ++ [f] := by
    simp [List.filter_append, h]
  rw [firstLost, hfilter, eraseDupsBy_concat]
  rfl

namespace Search

theorem After.of_firstLost_eq {s : Search} (h : s.After t cwd root roots visited)
    (hsame : firstLost t cwd root roots (visited ++ [f]) = firstLost t cwd root roots visited) :
    s.After t cwd root roots (visited ++ [f]) where
  sound := h.sound
  missing := by rw [hsame, h.missing]
  log := by rw [missingRecords, hsame, h.log, missingRecords]

/-- A file that has been looked for is not logged again. -/
theorem After.known {s : Search} (h : s.After t cwd root roots visited)
    {kept : Value} {path : Option Text} (hmem : (kept, path) ∈ s.found)
    (hsame : kept.sameKey f.file = true) : s.After t cwd root roots (visited ++ [f]) := by
  refine h.of_firstLost_eq ?_
  cases hlost : f.lost t cwd root roots with
  | false => exact firstLost_of_not_lost hlost
  | true =>
      obtain ⟨found, hfound, hpath⟩ := h.sound _ hmem _ hsame
      have hnone : path = none := by
        have hfile := Option.isNone_iff_eq_none.1 (Bool.and_eq_true_iff.1 hlost).2
        rw [pathOfFile_of_ok hfound] at hfile
        exact hpath.trans hfile
      have hkept : kept ∈ (firstLost t cwd root roots visited).map VarFacts.file := by
        rw [← h.missing]
        exact List.mem_map.2 ⟨_, List.mem_filter.2 ⟨hmem, by simp [hnone]⟩, rfl⟩
      obtain ⟨g, hg, rfl⟩ := List.mem_map.1 hkept
      rw [firstLost_of_lost hlost, if_pos (List.any_eq_true.2 ⟨g, hg, hsame⟩)]

theorem After.sound_keep {s : Search} (h : s.After t cwd root roots visited) {file : Value}
    {found : Option Path} (hfound : t.findSourceValue cwd file roots = .ok found) :
    ∀ e ∈ s.found ++ [(file, found.map (FileTree.relativeTo cwd root))], ∀ other,
      e.1.sameKey other = true → ∃ found, t.findSourceValue cwd other roots = .ok found ∧
        e.2 = found.map (FileTree.relativeTo cwd root) := by
  intro e he other hsame
  rcases List.mem_append.1 he with he | he
  · exact h.sound e he other hsame
  · obtain rfl := List.mem_singleton.1 he
    exact ⟨found, findSourceValue_of_sameKey t cwd roots hsame ▸ hfound, rfl⟩

theorem After.found {s : Search} (h : s.After t cwd root roots visited) {p : Path}
    (hfound : t.findSourceValue cwd f.file roots = .ok (some p)) :
    Search.After t cwd root roots (visited ++ [f])
      ⟨s.found ++ [(f.file, some (FileTree.relativeTo cwd root p))], s.log⟩ := by
  have hlost : f.lost t cwd root roots = false := by
    simp [VarFacts.lost, pathOfFile_of_ok hfound]
  have hafter := h.of_firstLost_eq (firstLost_of_not_lost hlost)
  exact {
    sound := h.sound_keep hfound
    missing := by rw [← hafter.missing]; simp [List.filter_append]
    log := hafter.log }

theorem After.lost {s : Search} (h : s.After t cwd root roots visited)
    (htruthy : f.file.truthy = true) (hfound : t.findSourceValue cwd f.file roots = .ok none)
    (hnew : s.found.find? (fun e => e.1.sameKey f.file) = none) :
    Search.After t cwd root roots (visited ++ [f])
      ⟨s.found ++ [(f.file, none)], s.log ++ [missingRecord f.name f.file roots]⟩ := by
  have hlost : f.lost t cwd root roots = true := by
    simp [VarFacts.lost, htruthy, pathOfFile_of_ok hfound]
  have hunknown : (firstLost t cwd root roots visited).any
      (fun g => g.file.sameKey f.file) = false := by
    refine List.any_eq_false.2 fun g hg hsame => ?_
    have hkept : g.file ∈ (s.found.filter fun e => e.2.isNone).map Prod.fst := by
      rw [h.missing]
      exact List.mem_map_of_mem hg
    obtain ⟨e, he, hfile⟩ := List.mem_map.1 hkept
    exact List.find?_eq_none.1 hnew e (List.mem_filter.1 he).1 (hfile ▸ hsame)
  have hfirst : firstLost t cwd root roots (visited ++ [f]) =
      firstLost t cwd root roots visited ++ [f] := by
    rw [firstLost_of_lost hlost, hunknown]
    rfl
  exact {
    sound := h.sound_keep hfound
    missing := by simp [hfirst, List.filter_append, h.missing]
    log := by simp [missingRecords, hfirst, h.log] }

end Search

end

namespace Searching

variable {t : FileTree} {cwd root : Path} {roots : List Path}

theorem computes_pure {α : Type} (a : α) : Computes t cwd root roots (pure a) [] a :=
  fun visited s hs => ⟨s, rfl, by rwa [List.append_nil]⟩

theorem computes_bind {α β : Type} {x : Searching α} {next : α → Searching β}
    {fs gs : List VarFacts} {a : α} {b : β} (hx : Computes t cwd root roots x fs a)
    (hnext : Computes t cwd root roots (next a) gs b) :
    Computes t cwd root roots (x >>= next) (fs ++ gs) b := by
  intro visited s hs
  have hbind : (x >>= next) s = x s >>= fun r => next r.1 r.2 := rfl
  have hfirst := hx visited s hs
  rw [hbind, List.findSome?_append]
  cases hfs : fs.findSome? (VarFacts.unsearchable? t cwd roots) with
  | some e =>
      rw [hfs] at hfirst
      rw [show x s = .error e from hfirst]
      rfl
  | none =>
      rw [hfs] at hfirst
      obtain ⟨mid, ha, hmid⟩ := hfirst
      rw [ha, ← List.append_assoc]
      exact hnext _ mid hmid

theorem computes_map {α β : Type} {x : Searching α} {fs : List VarFacts} {a : α} (f : α → β)
    (hx : Computes t cwd root roots x fs a) :
    Computes t cwd root roots (do return f (← x)) fs (f a) := by
  have hpure : Computes t cwd root roots (pure (f a)) [] (f a) := computes_pure (f a)
  rw [← List.append_nil fs]
  exact computes_bind hx hpure

theorem computes_mapM {α β : Type} {f : α → Searching β} {visits : α → List VarFacts} {g : α → β}
    {as : List α} (h : ∀ a ∈ as, Computes t cwd root roots (f a) (visits a) (g a)) :
    Computes t cwd root roots (as.mapM f) (as.flatMap visits) (as.map g) := by
  induction as with
  | nil => exact computes_pure []
  | cons a as ih =>
      have hrest := ih fun a ha => h a (List.mem_cons_of_mem _ ha)
      rw [List.mapM_cons]
      exact computes_bind (h a List.mem_cons_self) (computes_map _ hrest)

end Searching

section

variable {t : FileTree} {cwd root : Path} {roots : List Path}

theorem computes_sourcePath {f : VarFacts} (htruthy : f.file.truthy = true) :
    Searching.Computes t cwd root roots (sourcePath t cwd root roots f.name f.file) [f]
      (pathOfFile t cwd root roots f.file) := by
  intro visited s hs
  rw [List.findSome?_singleton, VarFacts.unsearchable?, if_pos htruthy]
  cases hkey : f.file.isKey with
  | false => simp [sourcePath, hkey]
  | true =>
      cases hnew : s.found.find? (fun e => e.1.sameKey f.file) with
      | some kept =>
          have hmem := List.mem_of_find?_eq_some hnew
          have hsame : kept.1.sameKey f.file = true := by simpa using List.find?_some hnew
          obtain ⟨found, hfound, hpath⟩ := hs.sound _ hmem f.file hsame
          have hresult : sourcePath t cwd root roots f.name f.file s = .ok (kept.2, s) := by
            simp [sourcePath, hkey, hnew]
          simp only [hfound, if_true]
          rw [pathOfFile_of_ok hfound, ← hpath]
          exact ⟨s, hresult, hs.known hmem hsame⟩
      | none =>
          cases hfound : t.findSourceValue cwd f.file roots with
          | error e => simp [sourcePath, hkey, hnew, hfound]
          | ok found =>
              rw [pathOfFile_of_ok hfound]
              cases found with
              | some p =>
                  exact ⟨_, by simp [sourcePath, hkey, hnew, hfound], hs.found hfound⟩
              | none =>
                  exact ⟨_, by simp [sourcePath, hkey, hnew, hfound], hs.lost htruthy hfound hnew⟩

theorem computes_locate (f : VarFacts) :
    Searching.Computes t cwd root roots (locate t cwd root roots f) [f]
      (f.located t cwd root roots) := by
  unfold locate VarFacts.located
  split
  case isTrue htruthy =>
    have hsource : Searching.Computes t cwd root roots _ [f] _ := computes_sourcePath htruthy
    rw [← List.append_nil [f]]
    refine Searching.computes_bind hsource ?_
    cases pathOfFile t cwd root roots f.file with
    | none => exact Searching.computes_pure f
    | some path => exact Searching.computes_pure _
  case isFalse huntruthy =>
    intro visited s hs
    have hlost : f.lost t cwd root roots = false := by simp [VarFacts.lost, huntruthy]
    rw [List.findSome?_singleton, VarFacts.unsearchable?, if_neg huntruthy]
    exact ⟨s, rfl, hs.of_firstLost_eq (firstLost_of_not_lost hlost)⟩

mutual
theorem computes_mapVar :
    (v : Var) → Searching.Computes t cwd root roots (Var.mapM' (locate t cwd root roots) v)
      v.flatten (v.map (VarFacts.located t cwd root roots))
  | .mk f members =>
      have hlocate : Searching.Computes t cwd root roots _ [f] _ := computes_locate f
      Searching.computes_bind hlocate (Searching.computes_map _ (computes_mapVars members))

theorem computes_mapVars :
    (vs : List Var) →
      Searching.Computes t cwd root roots (Var.mapAllM' (locate t cwd root roots) vs)
        (Var.flattenAll vs) (Var.mapAll (VarFacts.located t cwd root roots) vs)
  | [] => Searching.computes_pure []
  | v :: vs =>
      Searching.computes_bind (computes_mapVar v) (Searching.computes_map _ (computes_mapVars vs))
end

end

theorem Var.mem_flattenAll {f : VarFacts} {vs : List Var} :
    f ∈ flattenAll vs ↔ ∃ v ∈ vs, f ∈ v.flatten := by
  induction vs with
  | nil => simp [flattenAll]
  | cons v vs ih => simp [flattenAll, ih]

/-- The file of every variable and member is a text or null. -/
def FileNames (nss : List Namespace) : Prop :=
  ∀ ns ∈ nss, ∀ v ∈ ns.publics, ∀ f ∈ v.flatten, f.file.isFileName = true

def Namespace.located (t : FileTree) (cwd root : Path) (roots : List Path) (ns : Namespace) :
    Namespace :=
  { ns with publics := Var.mapAll (VarFacts.located t cwd root roots) ns.publics }

/-- The facts of all variables and members, each before its own members. -/
def allFacts (nss : List Namespace) : List VarFacts :=
  nss.flatMap fun ns => Var.flattenAll ns.publics

/-- Each variable gets the path of its own file, and each file that is missing is logged once,
unless there is a file that cannot be looked for. -/
theorem addSourcePaths_eq_match (t : FileTree) (cwd root : Path) (sources : List Path)
    (nss : List Namespace) :
    addSourcePaths t cwd root sources nss =
      match (allFacts nss).findSome? (VarFacts.unsearchable? t cwd (sources.map root.join)) with
      | some e => .error e
      | none =>
          .ok (nss.map (Namespace.located t cwd root (sources.map root.join)),
            missingRecords t cwd root (sources.map root.join) (allFacts nss)) := by
  have hmap : Searching.Computes t cwd root (sources.map root.join)
      (nss.mapM fun ns => do
        return { ns with
          publics := ← Var.mapAllM' (locate t cwd root (sources.map root.join)) ns.publics })
      (allFacts nss) (nss.map (Namespace.located t cwd root (sources.map root.join))) :=
    Searching.computes_mapM fun ns _ => Searching.computes_map _ (computes_mapVars ns.publics)
  have hrun := hmap [] ⟨[], []⟩ ⟨nofun, rfl, rfl⟩
  cases hfails : (allFacts nss).findSome? (VarFacts.unsearchable? t cwd (sources.map root.join)) with
  | some e =>
      rw [hfails] at hrun
      simp only [addSourcePaths, StateT.run, show _ = Except.error e from hrun]
      rfl
  | none =>
      rw [hfails] at hrun
      obtain ⟨s, hs, hafter⟩ := hrun
      rw [← List.nil_append (allFacts nss), ← hafter.log]
      simp only [addSourcePaths, StateT.run, hs]
      rfl

theorem VarFacts.unsearchable?_eq_none {f : VarFacts} (h : f.file.isFileName = true)
    (t : FileTree) (cwd : Path) (roots : List Path) : f.unsearchable? t cwd roots = none := by
  unfold unsearchable?
  split
  case isTrue htruthy =>
    obtain ⟨s, hs⟩ := Value.exists_of_isFileName h htruthy
    rw [hs]
    rfl
  case isFalse => rfl

/-- Only a file that is neither a text nor null can make the search fail. -/
theorem FileNames.unsearchable?_eq_none {nss : List Namespace} (h : FileNames nss) (t : FileTree)
    (cwd : Path) (roots : List Path) :
    (allFacts nss).findSome? (VarFacts.unsearchable? t cwd roots) = none := by
  refine List.findSome?_eq_none_iff.2 fun f hf => ?_
  obtain ⟨ns, hns, hf⟩ := List.mem_flatMap.1 hf
  obtain ⟨v, hv, hf⟩ := Var.mem_flattenAll.1 hf
  exact VarFacts.unsearchable?_eq_none (h ns hns v hv f hf) t cwd roots

theorem addSourcePaths_eq (t : FileTree) (cwd root : Path) (sources : List Path)
    (nss : List Namespace) :
    (∃ log, addSourcePaths t cwd root sources nss =
        .ok (nss.map (Namespace.located t cwd root (sources.map root.join)), log)) ∨
      (¬FileNames nss ∧ ∃ e, addSourcePaths t cwd root sources nss = .error e) := by
  rw [addSourcePaths_eq_match]
  cases hfails : (allFacts nss).findSome? (VarFacts.unsearchable? t cwd (sources.map root.join)) with
  | none => exact .inl ⟨_, rfl⟩
  | some e =>
      refine .inr ⟨fun hfiles => ?_, e, rfl⟩
      rw [hfiles.unsearchable?_eq_none] at hfails
      cases hfails

end Docsmith
