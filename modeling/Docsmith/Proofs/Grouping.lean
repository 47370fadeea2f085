import Docsmith.Proofs.Stages

/-!
# Merging is grouping by name

Merging gives the groups of the records in the order of their first records.  It does not matter
how the records came in: a block of them that has been merged before counts for the block.
-/

namespace Docsmith

/-- The namespaces are the groups of the records: one for each name, in the order in which names
first occur, with the fields of the first record of the name and the variables of all of them. -/
structure Groups (records result : List Namespace) : Prop where
  names : result.map Namespace.name = (records.map Namespace.name).eraseDups
  distinct : (result.map Namespace.name).Nodup
  merged : ∀ ns ∈ result, ∃ before first after, records = before ++ first :: after ∧
    (∀ m ∈ before, m.name ≠ ns.name) ∧ first.name = ns.name ∧
    ns = { first with
      publics := (records.filter fun m => m.name = ns.name).flatMap Namespace.publics }

theorem map_name_mergeNamespaces (records : List Namespace) :
    (mergeNamespaces records).map Namespace.name = recordNames records := by
  rw [mergeNamespaces_eq, List.map_map]
  simp [Function.comp_def]

theorem groups_mergeNamespaces (records : List Namespace) :
    Groups records (mergeNamespaces records) where
  names := map_name_mergeNamespaces records
  distinct := by
    rw [map_name_mergeNamespaces]
    exact nodup_recordNames records
  merged ns hns := by
    rw [mergeNamespaces_eq] at hns
    obtain ⟨name, hname, rfl⟩ := List.mem_map.1 hns
    have hfirst := find?_eq_some_firstNamed hname
    obtain ⟨-, before, after, hsplit, hbefore⟩ := List.find?_eq_some_iff_append.1 hfirst
    refine ⟨before, firstNamed records name, after, hsplit, ?_, ?_, ?_⟩
    · simpa using hbefore
    · rw [firstNamed_name, mergedAs_name]
    · rw [mergedAs_name]
      rfl

/-! ## Records that come in one by one -/

def mergeOnto (groups records : List Namespace) : List Namespace :=
  records.foldl (fun groups ns => mergeInto ns groups) groups

theorem mergeNamespaces_append_eq (xs ys : List Namespace) :
    mergeNamespaces (xs ++ ys) = mergeOnto (mergeNamespaces xs) ys := by
  simp [mergeNamespaces, mergeOnto]

theorem mergeInto_joined {m ns : Namespace} (h : m.name = ns.name) (groups : List Namespace) :
    mergeInto { m with publics := m.publics ++ ns.publics } groups =
      mergeInto ns (mergeInto m groups) := by
  induction groups with
  | nil => simp [mergeInto, h]
  | cons g groups ih =>
      by_cases hg : g.name = ns.name
      · simp [mergeInto, h, hg]
      · have hm : ¬g.name = m.name := h ▸ hg
        simp [mergeInto, hg, hm, ih]

theorem name_mem_mergeInto {name : Option Text} {groups : List Namespace}
    (h : name ∈ groups.map Namespace.name) (ns : Namespace) :
    name ∈ (mergeInto ns groups).map Namespace.name := by
  induction groups with
  | nil => simp at h
  | cons g groups ih =>
      by_cases hg : g.name = ns.name
      · simpa [mergeInto, hg] using h
      · rcases List.mem_cons.1 h with rfl | h
        · simp [mergeInto, hg]
        · simp [mergeInto, hg, ih h]

theorem name_mem_mergeInto_self (ns : Namespace) (groups : List Namespace) :
    ns.name ∈ (mergeInto ns groups).map Namespace.name := by
  induction groups with
  | nil => simp [mergeInto]
  | cons g groups ih =>
      by_cases hg : g.name = ns.name
      · simp [mergeInto, hg]
      · simp only [mergeInto, hg, if_false, List.map_cons, List.mem_cons, ih, or_true]

theorem mergeInto_comm {m ns : Namespace} (hne : m.name ≠ ns.name) {groups : List Namespace}
    (h : ns.name ∈ groups.map Namespace.name) :
    mergeInto m (mergeInto ns groups) = mergeInto ns (mergeInto m groups) := by
  induction groups with
  | nil => simp at h
  | cons g groups ih =>
      by_cases hg : g.name = ns.name
      · have hother : ns.name ≠ m.name := Ne.symm hne
        simp [mergeInto, hg, hother]
      · have hrest : ns.name ∈ groups.map Namespace.name :=
          (List.mem_cons.1 h).resolve_left (Ne.symm hg)
        by_cases hm : g.name = m.name
        · simp [mergeInto, hm, hne]
        · simp [mergeInto, hg, hm, ih hrest]

theorem mergeOnto_mergeInto_comm {ns : Namespace} {records : List Namespace}
    (hne : ns.name ∉ records.map Namespace.name) {groups : List Namespace}
    (h : ns.name ∈ groups.map Namespace.name) :
    mergeOnto (mergeInto ns groups) records = mergeInto ns (mergeOnto groups records) := by
  induction records generalizing groups with
  | nil => rfl
  | cons m records ih =>
      obtain ⟨hm, hrest⟩ := List.ne_and_not_mem_of_not_mem_cons hne
      calc mergeOnto (mergeInto m (mergeInto ns groups)) records
          = mergeOnto (mergeInto ns (mergeInto m groups)) records := by
            rw [mergeInto_comm (Ne.symm hm) h]
        _ = mergeInto ns (mergeOnto (mergeInto m groups) records) :=
            ih hrest (name_mem_mergeInto h m)

theorem mergeOnto_mergeInto {block : List Namespace} (distinct : (block.map Namespace.name).Nodup)
    (ns : Namespace) (groups : List Namespace) :
    mergeOnto groups (mergeInto ns block) = mergeInto ns (mergeOnto groups block) := by
  induction block generalizing groups with
  | nil => rfl
  | cons m block ih =>
      obtain ⟨hm, distinct⟩ := List.nodup_cons.1 distinct
      by_cases hname : m.name = ns.name
      · have hns : ns.name ∉ block.map Namespace.name := hname ▸ hm
        have hgroup : ns.name ∈ (mergeInto m groups).map Namespace.name :=
          hname ▸ name_mem_mergeInto_self m groups
        rw [mergeInto, if_pos hname]
        calc mergeOnto (mergeInto { m with publics := m.publics ++ ns.publics } groups) block
            = mergeOnto (mergeInto ns (mergeInto m groups)) block := by
              rw [mergeInto_joined hname]
          _ = mergeInto ns (mergeOnto (mergeInto m groups) block) :=
              mergeOnto_mergeInto_comm hns hgroup
      · rw [mergeInto, if_neg hname]
        exact ih distinct (mergeInto m groups)

/-! ## Blocks -/

theorem mergeOnto_merged (groups records : List Namespace) :
    mergeOnto groups (mergeNamespaces records) = mergeOnto groups records := by
  induction records using List.reverseRecOn with
  | nil => rfl
  | append_singleton records ns ih =>
      have hdistinct := (groups_mergeNamespaces records).distinct
      rw [mergeNamespaces_concat, mergeOnto_mergeInto hdistinct, ih]
      simp [mergeOnto]

theorem mergeNamespaces_merged (xs : List Namespace) :
    mergeNamespaces (mergeNamespaces xs) = mergeNamespaces xs :=
  mergeOnto_merged [] xs

/-- Merging groups the records by name, and a block that is merged already may stand for its
records. -/
theorem mergeNamespaces_groups_blocks (xs ys : List Namespace) :
    Groups xs (mergeNamespaces xs) ∧
      mergeNamespaces (xs ++ ys) = mergeNamespaces (mergeNamespaces xs ++ ys) ∧
      mergeNamespaces (xs ++ ys) = mergeNamespaces (xs ++ mergeNamespaces ys) ∧
      mergeNamespaces (mergeNamespaces xs) = mergeNamespaces xs := by
  refine ⟨groups_mergeNamespaces xs, ?_, ?_, mergeNamespaces_merged xs⟩
  · rw [mergeNamespaces_append_eq, mergeNamespaces_append_eq, mergeNamespaces_merged]
  · rw [mergeNamespaces_append_eq, mergeNamespaces_append_eq, mergeOnto_merged]

end Docsmith
