import Docsmith.Pipeline.Merge
import Docsmith.Pipeline.Selection
import Mathlib.Data.List.Induction
import Mathlib.Data.List.Nodup

/-!
# Merged and selected namespaces

Merging gives one namespace for each name, in the order in which names first occur, with
the fields of the first record of that name and the variables of all of them.  Selection
takes whole names away, and exclusion takes variables away.
-/

namespace Docsmith

def recordNames (records : List Namespace) : List (Option Text) :=
  (records.map Namespace.name).eraseDups

def varsNamed (records : List Namespace) (name : Option Text) : List Var :=
  (records.filter fun ns => ns.name = name).flatMap Namespace.publics

def firstNamed (records : List Namespace) (name : Option Text) : Namespace :=
  (records.find? fun ns => ns.name = name).getD { name := name }

def mergedAs (records : List Namespace) (name : Option Text) : Namespace :=
  { firstNamed records name with publics := varsNamed records name }

theorem mem_recordNames {records : List Namespace} {name : Option Text} :
    name ∈ recordNames records ↔ ∃ ns ∈ records, ns.name = name := by
  simp [recordNames, List.mem_eraseDups]

theorem recordNames_concat_of_mem {records : List Namespace} {ns : Namespace}
    (h : ns.name ∈ recordNames records) :
    recordNames (records ++ [ns]) = recordNames records := by
  rw [recordNames, List.mem_eraseDups] at h
  have hnone : List.removeAll [ns.name] (records.map Namespace.name) = [] := by
    simpa [List.removeAll, List.filter_cons] using h
  rw [recordNames, recordNames, List.map_append, List.eraseDups_append, List.map_singleton, hnone]
  simp

theorem recordNames_concat_of_not_mem {records : List Namespace} {ns : Namespace}
    (h : ns.name ∉ recordNames records) :
    recordNames (records ++ [ns]) = recordNames records ++ [ns.name] := by
  rw [recordNames, List.mem_eraseDups] at h
  have hall : List.removeAll [ns.name] (records.map Namespace.name) = [ns.name] := by
    simpa [List.removeAll, List.filter_cons] using h
  rw [recordNames, recordNames, List.map_append, List.eraseDups_append, List.map_singleton, hall]
  simp [List.eraseDups_cons]

theorem nodup_recordNames (records : List Namespace) : (recordNames records).Nodup := by
  induction records using List.reverseRecOn with
  | nil => simp [recordNames]
  | append_singleton records ns ih =>
      by_cases h : ns.name ∈ recordNames records
      · rwa [recordNames_concat_of_mem h]
      · rw [recordNames_concat_of_not_mem h, List.nodup_append]
        simp only [List.nodup_singleton, List.mem_singleton, true_and]
        refine ⟨ih, ?_⟩
        rintro name hname _ rfl rfl
        exact h hname

theorem firstNamed_name (records : List Namespace) (name : Option Text) :
    (firstNamed records name).name = name := by
  unfold firstNamed
  cases h : records.find? fun ns => ns.name = name with
  | none => rfl
  | some ns => simpa using List.find?_some h

@[simp] theorem mergedAs_name (records : List Namespace) (name : Option Text) :
    (mergedAs records name).name = name :=
  firstNamed_name records name

theorem find?_eq_some_firstNamed {records : List Namespace} {name : Option Text}
    (h : name ∈ recordNames records) :
    records.find? (fun ns => ns.name = name) = some (firstNamed records name) := by
  obtain ⟨ns, hns, hname⟩ := mem_recordNames.1 h
  cases hfind : records.find? fun ns => ns.name = name with
  | none =>
      have hnot := List.find?_eq_none.1 hfind ns hns
      simp [hname] at hnot
  | some first => simp [firstNamed, hfind]

/-! ## One more record -/

theorem varsNamed_concat_self (records : List Namespace) (ns : Namespace) :
    varsNamed (records ++ [ns]) ns.name = varsNamed records ns.name ++ ns.publics := by
  simp [varsNamed, List.filter_append]

theorem mergedAs_concat_of_ne {records : List Namespace} {ns : Namespace} {name : Option Text}
    (h : ns.name ≠ name) : mergedAs (records ++ [ns]) name = mergedAs records name := by
  have hvars : varsNamed (records ++ [ns]) name = varsNamed records name := by
    simp [varsNamed, List.filter_append, h]
  have hfirst : firstNamed (records ++ [ns]) name = firstNamed records name := by
    simp [firstNamed, List.find?_append, h]
  rw [mergedAs, mergedAs, hvars, hfirst]

theorem mergedAs_concat_of_mem {records : List Namespace} {ns : Namespace}
    (h : ns.name ∈ recordNames records) :
    mergedAs (records ++ [ns]) ns.name =
      { mergedAs records ns.name with
        publics := (mergedAs records ns.name).publics ++ ns.publics } := by
  have hsame : firstNamed (records ++ [ns]) ns.name = firstNamed records ns.name := by
    rw [firstNamed, List.find?_append, find?_eq_some_firstNamed h]
    rfl
  simp only [mergedAs, hsame, varsNamed_concat_self]

theorem mergedAs_concat_of_not_mem {records : List Namespace} {ns : Namespace}
    (h : ns.name ∉ recordNames records) : mergedAs (records ++ [ns]) ns.name = ns := by
  have hnone (m : Namespace) (hm : m ∈ records) : m.name ≠ ns.name := fun hname =>
    h (mem_recordNames.2 ⟨m, hm, hname⟩)
  have hfind : records.find? (fun m => m.name = ns.name) = none := by
    rw [List.find?_eq_none]
    simpa using hnone
  have hvars : varsNamed records ns.name = [] := by
    simpa [varsNamed] using fun m hm hname => absurd hname (hnone m hm)
  have hfirst : firstNamed (records ++ [ns]) ns.name = ns := by
    simp [firstNamed, List.find?_append, hfind]
  rw [mergedAs, varsNamed_concat_self, hvars, hfirst, List.nil_append]

theorem mergeInto_map_of_mem {records : List Namespace} {ns : Namespace}
    (h : ns.name ∈ recordNames records) {names : List (Option Text)} (nodup : names.Nodup)
    (hns : ns.name ∈ names) :
    mergeInto ns (names.map (mergedAs records)) = names.map (mergedAs (records ++ [ns])) := by
  induction names with
  | nil => cases hns
  | cons name names ih =>
      obtain ⟨hname, nodup⟩ := List.nodup_cons.1 nodup
      rw [List.map_cons, List.map_cons, mergeInto]
      by_cases heq : name = ns.name
      · subst heq
        have hrest : names.map (mergedAs records) = names.map (mergedAs (records ++ [ns])) := by
          refine List.map_congr_left fun other hother => (mergedAs_concat_of_ne ?_).symm
          rintro rfl
          exact hname hother
        rw [if_pos (mergedAs_name records ns.name), mergedAs_concat_of_mem h, hrest]
      · have htail : ns.name ∈ names := (List.mem_cons.1 hns).resolve_left (Ne.symm heq)
        rw [mergedAs_name, if_neg heq, mergedAs_concat_of_ne (Ne.symm heq), ih nodup htail]

theorem mergeInto_map_of_not_mem {records : List Namespace} {ns : Namespace}
    (h : ns.name ∉ recordNames records) {names : List (Option Text)} (hns : ns.name ∉ names) :
    mergeInto ns (names.map (mergedAs records)) =
      (names ++ [ns.name]).map (mergedAs (records ++ [ns])) := by
  induction names with
  | nil => simp [mergeInto, mergedAs_concat_of_not_mem h]
  | cons name names ih =>
      obtain ⟨hne, hns⟩ := List.ne_and_not_mem_of_not_mem_cons hns
      rw [List.map_cons, List.cons_append, List.map_cons, mergeInto, mergedAs_name,
        if_neg (Ne.symm hne), mergedAs_concat_of_ne hne, ih hns]

/-! ## All records -/

theorem mergeNamespaces_eq (records : List Namespace) :
    mergeNamespaces records = (recordNames records).map (mergedAs records) := by
  induction records using List.reverseRecOn with
  | nil => rfl
  | append_singleton records ns ih =>
      have hstep : mergeNamespaces (records ++ [ns]) = mergeInto ns (mergeNamespaces records) := by
        simp [mergeNamespaces]
      rw [hstep, ih]
      by_cases h : ns.name ∈ recordNames records
      · rw [recordNames_concat_of_mem h]
        exact mergeInto_map_of_mem h (nodup_recordNames records) h
      · rw [recordNames_concat_of_not_mem h]
        exact mergeInto_map_of_not_mem h h

/-! ## Selection and exclusion -/

def selects (patterns : Option (List Selector)) (name : Option Text) : Bool :=
  match patterns, name with
  | none, _ => true
  | some _, none => false
  | some patterns, some name => patterns.any (·.accepts name)

theorem selectNamespaces_eq (patterns : Option (List Selector)) (nss : List Namespace) :
    selectNamespaces patterns nss = nss.filter fun ns => selects patterns ns.name := by
  cases patterns with
  | none => simp [selectNamespaces, selects]
  | some patterns =>
      refine List.filter_congr fun ns _ => ?_
      cases hname : ns.name with
      | none => simp [Namespace.acceptedBy, selects, hname]
      | some name => simp [Namespace.acceptedBy, selects, hname]

def selectedNames (patterns : Option (List Selector)) (records : List Namespace) :
    List (Option Text) :=
  (recordNames records).filter (selects patterns)

theorem selectNamespaces_merge (patterns : Option (List Selector)) (records : List Namespace) :
    selectNamespaces patterns (mergeNamespaces records) =
      (selectedNames patterns records).map (mergedAs records) := by
  have hselects : ((fun ns => selects patterns ns.name) ∘ mergedAs records) = selects patterns :=
    funext fun name => congrArg (selects patterns) (mergedAs_name records name)
  rw [selectNamespaces_eq, mergeNamespaces_eq, List.filter_map, hselects]
  rfl

def remaining (exclusion : Option Regex) (records : List Namespace) (name : Option Text) :
    Namespace :=
  { mergedAs records name with
    publics := (varsNamed records name).filter fun v => !excludes exclusion v }

theorem removeExcluded_merged (exclusion : Option Regex) (records : List Namespace)
    (names : List (Option Text)) :
    removeExcluded exclusion (names.map (mergedAs records)) =
      names.map (remaining exclusion records) := by
  rw [removeExcluded, List.map_map]
  rfl

/-- A record for each variable of the names that is excluded, in order. -/
def exclusions (exclusion : Option Regex) (records : List Namespace) (names : List (Option Text)) :
    List LogRecord :=
  names.flatMap fun name => ((varsNamed records name).filter (excludes exclusion)).map fun v =>
    ⟨loggerName "filters", .info, "Excluding var " ++ (name.getD "None" ++ "/" ++ v.name)⟩

theorem exclusionLog_merged (exclusion : Option Regex) (records : List Namespace)
    (names : List (Option Text)) :
    exclusionLog exclusion (names.map (mergedAs records)) = exclusions exclusion records names := by
  rw [exclusionLog, List.flatMap_map]
  refine List.flatMap_congr fun name _ => List.map_congr_left fun v _ => ?_
  rw [exclusionRecord, Namespace.qualify, Namespace.label, mergedAs_name]

end Docsmith
