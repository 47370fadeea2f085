import Docsmith.Proofs.Hidden
import Mathlib.Data.List.Nodup

/-!
# The order of collection leaves no trace

Texts are in a linear order, so there is one way to sort entries with different names.  What a
writer does is thus the same for all orders in which namespaces and variables were collected.
-/

namespace Docsmith

/-! ## The order of texts -/

theorem CodePoint.eq_of_toNat {a b : CodePoint} (h : a.toNat = b.toNat) : a = b := by
  cases a
  cases b
  simpa using h

namespace Text

theorem nil_le (t : Text) : le [] t = true := by
  cases t <;> rfl

theorem not_cons_le_nil (a : CodePoint) (s : Text) : ¬le (a :: s) [] = true := by
  simp [le, compare, Ordering.isLE]

theorem cons_le_cons_iff {a b : CodePoint} {s t : Text} :
    le (a :: s) (b :: t) = true ↔ a.toNat < b.toNat ∨ a.toNat = b.toNat ∧ le s t = true := by
  rw [le, compare]
  split
  · simp [Ordering.isLE, *]
  · split
    · simp [Ordering.isLE]
      omega
    · have heq : a.toNat = b.toNat := by omega
      simp [heq, le]

theorem le_total (s t : Text) : le s t = true ∨ le t s = true := by
  induction s generalizing t with
  | nil => exact .inl (nil_le t)
  | cons a s ih =>
      cases t with
      | nil => exact .inr (nil_le _)
      | cons b t =>
          rw [cons_le_cons_iff, cons_le_cons_iff]
          rcases Nat.lt_trichotomy a.toNat b.toNat with h | h | h
          · exact .inl (.inl h)
          · exact (ih t).imp (fun hst => .inr ⟨h, hst⟩) fun hts => .inr ⟨h.symm, hts⟩
          · exact .inr (.inl h)

theorem le_trans {s t u : Text} (hst : le s t = true) (htu : le t u = true) : le s u = true := by
  induction s generalizing t u with
  | nil => exact nil_le u
  | cons a s ih =>
      cases t with
      | nil => exact absurd hst (not_cons_le_nil a s)
      | cons b t =>
          cases u with
          | nil => exact absurd htu (not_cons_le_nil b t)
          | cons c u =>
              rw [cons_le_cons_iff] at hst htu ⊢
              rcases hst with hab | ⟨hab, hst⟩
              · left
                omega
              · rcases htu with hbc | ⟨hbc, htu⟩
                · left
                  omega
                · exact .inr ⟨hab.trans hbc, ih hst htu⟩

theorem le_antisymm {s t : Text} (hst : le s t = true) (hts : le t s = true) : s = t := by
  induction s generalizing t with
  | nil =>
      cases t with
      | nil => rfl
      | cons b t => exact absurd hts (not_cons_le_nil b t)
  | cons a s ih =>
      cases t with
      | nil => exact absurd hst (not_cons_le_nil a s)
      | cons b t =>
          rw [cons_le_cons_iff] at hst hts
          rcases hst with hab | ⟨hab, hst⟩
          · omega
          · have hts : le t s = true := (hts.resolve_left (by omega)).2
            rw [CodePoint.eq_of_toNat hab, ih hst hts]

end Text

/-! ## Sorting by name -/

theorem pairwise_mergeSort_by {α : Type} (name : α → Text) (as : List α) :
    (as.mergeSort fun a b => Text.le (name a) (name b)).Pairwise
      fun a b => Text.le (name a) (name b) = true := by
  apply List.pairwise_mergeSort
  · intro a b c hab hbc
    exact Text.le_trans hab hbc
  · intro a b
    simpa using Text.le_total (name a) (name b)

theorem mergeSort_of_perm {α : Type} {name : α → Text} {as bs : List α} (perm : as.Perm bs)
    (nodup : (as.map name).Nodup) :
    bs.mergeSort (fun a b => Text.le (name a) (name b)) =
      as.mergeSort (fun a b => Text.le (name a) (name b)) := by
  have hsorted := pairwise_mergeSort_by name
  refine List.Perm.eq_of_pairwise ?_ (hsorted bs) (hsorted as) ?_
  · intro a b ha hb hab hba
    rw [List.mem_mergeSort] at ha hb
    exact List.inj_on_of_nodup_map nodup (perm.mem_iff.2 ha) hb (Text.le_antisymm hab hba)
  · exact (List.mergeSort_perm bs _).trans (perm.symm.trans (List.mergeSort_perm as _).symm)

theorem mergeSort_filter_of_perm {α : Type} {name : α → Text} {as bs : List α}
    (perm : as.Perm bs) (nodup : (as.map name).Nodup) (keep : α → Bool) :
    (bs.filter keep).mergeSort (fun a b => Text.le (name a) (name b)) =
      (as.filter keep).mergeSort (fun a b => Text.le (name a) (name b)) :=
  mergeSort_of_perm (perm.filter keep) (nodup.sublist (List.filter_sublist.map name))

/-! ## Rearranged sites -/

/-- The second namespace is the first one with its variables in another order. -/
def Namespace.Rearranges (ns ns' : Namespace) : Prop :=
  ∃ publics, ns.publics.Perm publics ∧ ns' = { ns with publics := publics }

/-- The second site is the first one with its namespaces, and the variables of any of them, in
another order. -/
def Site.Rearranges (s s' : Site) : Prop :=
  ∃ nss namespaces, List.Forall₂ Namespace.Rearranges s.namespaces nss ∧ nss.Perm namespaces ∧
    s' = { s with namespaces := namespaces }

/-- The namespaces differ at most in the order of their variables, and not when it is by name. -/
def Namespace.SortsAs (ns ns' : Namespace) : Prop :=
  ∃ publics, ns' = { ns with publics := publics } ∧ ns'.visible = ns.visible

theorem Namespace.Rearranges.sortsAs {ns ns' : Namespace} (h : ns.Rearranges ns')
    (nodup : (ns.publics.map Var.name).Nodup) : ns.SortsAs ns' := by
  obtain ⟨publics, perm, rfl⟩ := h
  exact ⟨publics, rfl, mergeSort_filter_of_perm perm nodup _⟩

theorem Namespace.SortsAs.label {ns ns' : Namespace} (h : ns.SortsAs ns') :
    ns'.label = ns.label := by
  obtain ⟨publics, rfl, -⟩ := h
  rfl

theorem Namespace.SortsAs.noDoc {ns ns' : Namespace} (h : ns.SortsAs ns') :
    ns'.noDoc = ns.noDoc := by
  obtain ⟨publics, rfl, -⟩ := h
  rfl

theorem Namespace.SortsAs.showsAs {ns ns' : Namespace} (h : ns.SortsAs ns') :
    ns.ShowsAs ns' := by
  obtain ⟨publics, rfl, hvisible⟩ := h
  refine ⟨rfl, rfl, rfl, rfl, ?_⟩
  rw [hvisible]
  exact List.forall₂_same.2 fun v _ => .refl v

theorem map_label_of_forall₂ {nss nss' : List Namespace}
    (h : List.Forall₂ Namespace.SortsAs nss nss') :
    nss'.map Namespace.label = nss.map Namespace.label := by
  induction h with
  | nil => rfl
  | cons hns _ ih => rw [List.map_cons, List.map_cons, hns.label, ih]

theorem Site.Rearranges.visible {s s' : Site} (h : s.Rearranges s')
    (names : (s.namespaces.map Namespace.label).Nodup)
    (vars : ∀ ns ∈ s.namespaces, (ns.publics.map Var.name).Nodup) :
    List.Forall₂ Namespace.SortsAs s.visible s'.visible := by
  obtain ⟨nss, namespaces, hnss, perm, rfl⟩ := h
  have hsorts : List.Forall₂ Namespace.SortsAs s.namespaces nss :=
    ((List.forall₂_and_left _ _).2 ⟨vars, hnss⟩).imp fun ns ns' h => h.2.sortsAs h.1
  have hvars : List.Forall₂ Namespace.SortsAs s.visible
      (Site.visible { s with namespaces := nss }) := by
    apply forall₂_mergeSort
    · intro a b a' b' ha hb
      rw [ha.label, hb.label]
    · apply List.rel_filter _ hsorts
      intro a b h
      simp only [h.noDoc]
  have hnames : (nss.map Namespace.label).Nodup := by
    rwa [map_label_of_forall₂ hsorts]
  have hsame : Site.visible { s with namespaces := namespaces } =
      Site.visible { s with namespaces := nss } :=
    mergeSort_filter_of_perm perm hnames _
  rw [hsame]
  exact hvars

/-! ## Writers -/

namespace Writer

theorem namespaceData_of_sortsAs {ns ns' : Namespace} (h : ns.SortsAs ns') (o : Options) :
    namespaceData o ns' = namespaceData o ns := by
  obtain ⟨publics, rfl, hvisible⟩ := h
  rw [namespaceData, namespaceData, hvisible]

theorem namespacesData_of_sortsAs {nss nss' : List Namespace}
    (h : List.Forall₂ Namespace.SortsAs nss nss') (o : Options) :
    namespacesData o nss' = namespacesData o nss := by
  induction h with
  | nil => rfl
  | cons hns _ ih => simp only [namespacesData, namespaceData_of_sortsAs hns, ih]

/-- Whatever the workspace, a writer leaves the same files, and fails alike, if namespaces of
different names and their variables of different names are collected in another order. -/
theorem write_of_rearranges {s s' : Site} (h : s.Rearranges s')
    (names : (s.namespaces.map Namespace.label).Nodup)
    (vars : ∀ ns ∈ s.namespaces, (ns.publics.map Var.name).Nodup) (writer : Writer) :
    writer.write s' = writer.write s := by
  have hvisible := h.visible names vars
  obtain ⟨nss, namespaces, -, -, rfl⟩ := h
  cases writer with
  | html =>
      have hshown := hvisible.imp fun ns ns' h => h.showsAs
      exact writeHtml_congr rfl rfl hshown
  | json =>
      have hdata := namespacesData_of_sortsAs hvisible s.options
      exact writeJson_congr rfl rfl hdata

def first : Var := .mk { name := "v", doc := .str "d" } []

def second : Var := .mk { name := "w", kind := "macro" } []

def unnamed : Namespace := { name := none, doc := .str "d" }

def collected : Site :=
  { options := { root := ⟨true, []⟩, commit := .known .null },
    namespaces := [{ name := some "a", publics := [first, second] }, unnamed],
    documents := [] }

def collectedBack : Site :=
  { collected with namespaces := [unnamed, { name := some "a", publics := [second, first] }] }

theorem write_collectedBack :
    collected.Rearranges collectedBack ∧ (collected.namespaces.map Namespace.label).Nodup ∧
      (∀ ns ∈ collected.namespaces, (ns.publics.map Var.name).Nodup) ∧
      ∀ writer : Writer, writer.write collectedBack = writer.write collected := by
  have hrearranges : collected.Rearranges collectedBack := by
    refine ⟨[{ name := some "a", publics := [second, first] }, unnamed], _, ?_, .swap _ _ _, rfl⟩
    exact .cons ⟨_, .swap _ _ _, rfl⟩ (.cons ⟨_, .refl _, rfl⟩ .nil)
  have hnames : (collected.namespaces.map Namespace.label).Nodup := by decide
  have hvars : ∀ ns ∈ collected.namespaces, (ns.publics.map Var.name).Nodup := by decide
  exact ⟨hrearranges, hnames, hvars, write_of_rearranges hrearranges hnames hvars⟩

end Writer

end Docsmith
