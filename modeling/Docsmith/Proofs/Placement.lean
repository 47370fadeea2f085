import Docsmith.Proofs.Stages

/-!
# Looking for source paths once more

What the search remembers cannot be seen in what it gives: every variable is treated as if it
were the only one, and what is logged can be read off the variables in the order in which they
stand.  Both depend on names and files alone, which the search leaves as they are, so a second
search finds, logs and changes nothing new.
-/

namespace Docsmith

theorem eraseDupsBy_map {α β : Type} {r : α → α → Bool} {r' : β → β → Bool} {g : α → β}
    (h : ∀ a b, r' (g a) (g b) = r a b) (as : List α) :
    (as.map g).eraseDupsBy r' = (as.eraseDupsBy r).map g := by
  induction as using List.reverseRecOn with
  | nil => rfl
  | append_singleton as a ih =>
      have hany : ((as.eraseDupsBy r).map g).any (r' (g a)) = (as.eraseDupsBy r).any (r a) := by
        rw [List.any_map]
        exact congrArg (List.any _) (funext (h a))
      rw [List.map_append, List.map_singleton, eraseDupsBy_concat, eraseDupsBy_concat, ih, hany]
      split
      · rfl
      · rw [List.map_append, List.map_singleton]

namespace VarFacts

variable (t : FileTree) (cwd root : Path) (roots : List Path)

theorem located_located (f : VarFacts) :
    (f.located t cwd root roots).located t cwd root roots = f.located t cwd root roots := by
  rw [located, located_file]
  unfold located
  split
  · cases pathOfFile t cwd root roots f.file <;> rfl
  · rfl

theorem lost_located (f : VarFacts) :
    (f.located t cwd root roots).lost t cwd root roots = f.lost t cwd root roots := by
  rw [lost, located_file, lost]

theorem unsearchable?_located (f : VarFacts) :
    (f.located t cwd root roots).unsearchable? t cwd roots = f.unsearchable? t cwd roots := by
  rw [unsearchable?, located_file, unsearchable?]

def unplaced (f : VarFacts) : VarFacts := { f with path := .null }

theorem unplaced_located (f : VarFacts) : (f.located t cwd root roots).unplaced = f.unplaced := by
  unfold located
  split
  · cases pathOfFile t cwd root roots f.file <;> rfl
  · rfl

end VarFacts

theorem firstLost_located (t : FileTree) (cwd root : Path) (roots : List Path)
    (fs : List VarFacts) :
    firstLost t cwd root roots (fs.map (VarFacts.located t cwd root roots)) =
      (firstLost t cwd root roots fs).map (VarFacts.located t cwd root roots) := by
  have hlost : VarFacts.lost t cwd root roots ∘ VarFacts.located t cwd root roots =
      VarFacts.lost t cwd root roots := funext (VarFacts.lost_located t cwd root roots)
  rw [firstLost, List.filter_map, hlost]
  refine eraseDupsBy_map (fun f g => ?_) _
  rw [VarFacts.located_file, VarFacts.located_file]

theorem missingRecords_located (t : FileTree) (cwd root : Path) (roots : List Path)
    (fs : List VarFacts) :
    missingRecords t cwd root roots (fs.map (VarFacts.located t cwd root roots)) =
      missingRecords t cwd root roots fs := by
  rw [missingRecords, firstLost_located, List.map_map]
  refine List.map_congr_left fun f _ => ?_
  rw [Function.comp_apply, VarFacts.located_name, VarFacts.located_file]

namespace Namespace

def unplaced (ns : Namespace) : Namespace :=
  { ns with publics := Var.mapAll VarFacts.unplaced ns.publics }

variable (t : FileTree) (cwd root : Path) (roots : List Path)

theorem located_located (ns : Namespace) :
    (ns.located t cwd root roots).located t cwd root roots = ns.located t cwd root roots := by
  have hfacts : VarFacts.located t cwd root roots ∘ VarFacts.located t cwd root roots =
      VarFacts.located t cwd root roots := funext (VarFacts.located_located t cwd root roots)
  rw [located, located, Var.mapAll_mapAll, hfacts]

theorem unplaced_located (ns : Namespace) :
    (ns.located t cwd root roots).unplaced = ns.unplaced := by
  have hfacts : VarFacts.unplaced ∘ VarFacts.located t cwd root roots = VarFacts.unplaced :=
    funext (VarFacts.unplaced_located t cwd root roots)
  rw [located, unplaced, Var.mapAll_mapAll, hfacts, unplaced]

end Namespace

theorem allFacts_located (t : FileTree) (cwd root : Path) (roots : List Path)
    (nss : List Namespace) :
    allFacts (nss.map (Namespace.located t cwd root roots)) =
      (allFacts nss).map (VarFacts.located t cwd root roots) := by
  rw [allFacts, List.flatMap_map, allFacts, List.map_flatMap]
  exact congrArg (nss.flatMap ·) (funext fun ns => Var.flattenAll_mapAll _ ns.publics)

/-- The search for source paths gives every variable and member the path of its own file and
changes nothing else, logs each file that is missing once, under the first variable that has
it, and gives and logs the same for its own result.  It fails only if some file is neither a
text nor null. -/
theorem addSourcePaths_settles (t : FileTree) (cwd root : Path) (sources : List Path)
    (nss : List Namespace) :
    let roots := sources.map root.join
    let placed := nss.map (Namespace.located t cwd root roots)
    let log := missingRecords t cwd root roots (allFacts nss)
    (addSourcePaths t cwd root sources nss = .ok (placed, log) ∧
        addSourcePaths t cwd root sources placed = .ok (placed, log) ∧
        placed.map Namespace.unplaced = nss.map Namespace.unplaced) ∨
      (¬FileNames nss ∧ ∃ e, addSourcePaths t cwd root sources nss = .error e) := by
  intro roots placed log
  rw [addSourcePaths_eq_match]
  cases hfails : (allFacts nss).findSome? (VarFacts.unsearchable? t cwd roots) with
  | some e =>
      refine .inr ⟨fun hfiles => ?_, e, rfl⟩
      rw [hfiles.unsearchable?_eq_none] at hfails
      cases hfails
  | none =>
      have hsearch : VarFacts.unsearchable? t cwd roots ∘ VarFacts.located t cwd root roots =
          VarFacts.unsearchable? t cwd roots :=
        funext (VarFacts.unsearchable?_located t cwd root roots)
      have htwice : placed.map (Namespace.located t cwd root roots) = placed := by
        rw [List.map_map]
        exact List.map_congr_left fun ns _ => Namespace.located_located t cwd root roots ns
      refine .inl ⟨rfl, ?_, ?_⟩
      · rw [addSourcePaths_eq_match, allFacts_located, List.findSome?_map, hsearch, hfails,
          missingRecords_located, htwice]
      · rw [List.map_map]
        exact List.map_congr_left fun ns _ => Namespace.unplaced_located t cwd root roots ns

end Docsmith
