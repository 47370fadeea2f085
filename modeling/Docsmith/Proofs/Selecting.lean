import Docsmith.Proofs.Precedence

/-!
# Selectors in options

A selector is read in two places: where namespaces are selected, and where it is given as an
option, which reads it first and selects by what it has read.  Both make the same of it, but for
a pattern object that stands alone, which an option refuses.
-/

namespace Docsmith

/-! ## One more option -/

theorem Table.mem_insert_self {κ ν : Type} [DecidableEq κ] (k : κ) (v : ν) (t : Table κ ν) :
    (k, v) ∈ insert k v t := by
  induction t with
  | nil => exact List.mem_cons_self
  | cons e t ih =>
      by_cases hk : e.1 = k
      · simp [insert, hk]
      · simp [insert, hk, ih]

theorem OptionTable.ofValue_concat {d : Dict} (h : ∀ e ∈ d, e.1.writable = true)
    (key : Text) (v : Value) : ofValue (.dict (d ++ [(.str key, v)])) =
      .ok (Table.insert (normalKey (.str key)) v (normalize d)) := by
  refine ofValue_dict_eq_ok_iff.2 ⟨?_, (normalize_concat d (.str key, v)).symm⟩
  exact List.forall_mem_append.2 ⟨h, List.forall_mem_singleton.2 rfl⟩

namespace Options

variable {t : OptionTable} {start cwd : Path} {homes : Homes} {o : Options}

theorem exists_foldlM_iff (t : OptionTable) (o : Options) :
    (∃ o', t.foldlM (fun o e => o.set e.1 e.2) o = .ok o') ↔
      ∀ e ∈ t, (OptionKind.ofKey e.1).accepts e.2 = true := by
  induction t generalizing o with
  | nil => exact iff_of_true ⟨o, rfl⟩ nofun
  | cons e t ih =>
      rw [List.foldlM_cons, List.forall_mem_cons]
      constructor
      · rintro ⟨o', h⟩
        obtain ⟨next, hset, h⟩ := exists_of_bind_eq_ok h
        exact ⟨(settles_set o e.1 e.2).ok_iff.1 ⟨next, hset⟩, (ih next).1 ⟨o', h⟩⟩
      · rintro ⟨hfirst, hrest⟩
        obtain ⟨next, hset⟩ := (settles_set o e.1 e.2).ok_iff.2 hfirst
        rw [hset]
        exact (ih next).2 hrest

theorem exists_ofTable_insert_iff {key : Text} (notRoot : key ≠ "root_path")
    (notExtra : key ≠ "extra") (v : Value) (h : ofTable t start cwd homes = .ok o) :
    (∃ o', ofTable (Table.insert key v t) start cwd homes = .ok o') ↔
      (OptionKind.ofKey key).accepts v = true := by
  obtain ⟨root, hroot, h⟩ := exists_of_bind_eq_ok h
  have haccepted := (exists_foldlM_iff _ _).1 ⟨o, h⟩
  constructor
  · rintro ⟨o', h'⟩
    obtain ⟨root', -, h'⟩ := exists_of_bind_eq_ok h'
    refine (exists_foldlM_iff _ _).1 ⟨o', h'⟩ (key, v) ?_
    simp [Table.erase, Table.mem_insert_self, notRoot, notExtra]
  · intro hv
    unfold ofTable
    rw [Table.get?_insert_of_ne (Ne.symm notRoot), hroot]
    refine (exists_foldlM_iff _ _).2 fun e he => ?_
    obtain ⟨he, hextra⟩ := List.mem_filter.1 he
    obtain ⟨he, hroot⟩ := List.mem_filter.1 he
    rcases Table.mem_insert he with rfl | he
    · exact hv
    · exact haccepted e (List.mem_filter.2 ⟨List.mem_filter.2 ⟨he, hroot⟩, hextra⟩)

end Options

/-! ## Selectors -/

def selectBy (v : Value) (nss : List Namespace) : Except Failure (List Namespace) :=
  (Selector.allOfValue v).map (selectNamespaces · nss)

namespace Options

theorem toSelection_of_ne_selector {v : Value} (h : ∀ s, v ≠ .selector s) :
    toSelection v = Selector.allOfValue v := by
  cases v with
  | selector s => exact absurd rfl (h s)
  | _ => rfl

theorem accepts_namespaces_iff {v : Value} {patterns : Option (List Selector)}
    (h : Selector.allOfValue v = .ok patterns) :
    (OptionKind.ofKey "namespaces").accepts v = true ↔ ∀ s, v ≠ .selector s := by
  have hneeds := Selector.needs_allOfValue v
  have hkind : OptionKind.ofKey "namespaces" = .selection := by decide
  rw [hkind]
  constructor
  · rintro hselection s rfl
    cases hselection
  · intro hobject
    by_contra hselection
    obtain ⟨f, hf, -⟩ := hneeds.strays hselection
    rw [toSelection_of_ne_selector hobject, h] at hf
    cases hf

theorem mapM_ofValue_selector (patterns : List Selector) :
    (patterns.map Value.selector).mapM Selector.ofValue = .ok patterns := by
  induction patterns with
  | nil => rfl
  | cons s patterns ih =>
      rw [List.map_cons, List.mapM_cons, ih]
      rfl

theorem allOfValue_of_toValues (o : Options) {v : Value}
    (h : o.toValues.get? "namespaces" = some v) : Selector.allOfValue v = .ok o.namespaces := by
  obtain rfl := Option.some.inj h
  cases o.namespaces with
  | none => rfl
  | some patterns =>
      simp only [Selector.allOfValue, mapM_ofValue_selector]
      rfl

theorem toSelection_of_ofTable {v : Value} (normal : t.Normal)
    (hv : t.get? "namespaces" = some v) (h : ofTable t start cwd homes = .ok o) :
    toSelection v = .ok o.namespaces := by
  obtain ⟨root, -, h⟩ := exists_of_bind_eq_ok h
  have htakes := Setting.namespaces.takes_of_foldlM
    ((normal.erase "root_path").erase "extra").nodup h
  have hkey : Setting.namespaces.key = "namespaces" := rfl
  rw [hkey, Table.get?_erase (by decide), Table.get?_erase (by decide), hv] at htakes
  exact htakes

end Options

/-- A value selects the same namespaces by itself and as an option, under whatever spelling and
among whatever other options, if only it is accepted as one: a pattern object is not. -/
theorem selects_alike_through_options {v : Value} {patterns : Option (List Selector)}
    (accepted : Selector.allOfValue v = .ok patterns) {key : Text}
    (hkey : normalKey (.str key) = "namespaces") {d : Dict} {start cwd : Path} {homes : Homes}
    {o : Options} (h : Options.ofValue (.dict d) start cwd homes = .ok o) :
    ((∃ o', Options.ofValue (.dict (d ++ [(.str key, v)])) start cwd homes = .ok o') ↔
      ∀ s, v ≠ .selector s) ∧
    ∀ o', Options.ofValue (.dict (d ++ [(.str key, v)])) start cwd homes = .ok o' →
      ∃ kept, o'.toValues.get? "namespaces" = some kept ∧
        ∀ nss, selectBy kept nss = selectBy v nss ∧
          selectBy v nss = .ok (selectNamespaces o'.namespaces nss) := by
  obtain ⟨t, ht, htable⟩ := exists_of_bind_eq_ok h
  obtain ⟨writable, rfl⟩ := OptionTable.ofValue_dict_eq_ok_iff.1 ht
  have hinsert : Options.ofValue (.dict (d ++ [(.str key, v)])) start cwd homes =
      Options.ofTable (Table.insert "namespaces" v (OptionTable.normalize d)) start cwd homes := by
    rw [Options.ofValue, OptionTable.ofValue_concat writable, hkey]
    rfl
  rw [hinsert]
  have hiff := (Options.exists_ofTable_insert_iff (by decide) (by decide) v htable).trans
    (Options.accepts_namespaces_iff accepted)
  refine ⟨hiff, fun o' h' => ?_⟩
  have hread := Options.toSelection_of_ofTable
    ((OptionTable.normal_normalize d).insert (by decide) v) (Table.get?_insert_self _ v _) h'
  rw [Options.toSelection_of_ne_selector (hiff.1 ⟨o', h'⟩)] at hread
  have hv (nss : List Namespace) :
      selectBy v nss = .ok (selectNamespaces o'.namespaces nss) := by
    rw [selectBy, hread]
    rfl
  refine ⟨_, rfl, fun nss => ⟨?_, hv nss⟩⟩
  rw [hv, selectBy, Options.allOfValue_of_toValues o' rfl]
  rfl

/-- In a list, the word for everything is a name like any other, and a pattern object is
accepted. -/
def mixedSelector : Value := .list [.str "all", .selector (.exact "a"), .int 3]

theorem selects_alike_through_options_mixedSelector :
    ∃ o, Options.ofValue (.dict [(.str ":namespaces", mixedSelector)])
        ⟨true, []⟩ ⟨true, []⟩ [] = .ok o ∧
      ∃ kept, o.toValues.get? "namespaces" = some kept ∧
        ∀ nss, selectBy kept nss = selectBy mixedSelector nss ∧
          selectBy mixedSelector nss = .ok (selectNamespaces o.namespaces nss) := by
  have haccepted : Selector.allOfValue mixedSelector =
      .ok (some [.exact "all", .exact "a", .exact "3"]) := rfl
  have hkey : normalKey (.str ":namespaces") = "namespaces" := by decide
  have hothers : Options.ofValue (.dict []) ⟨true, []⟩ ⟨true, []⟩ [] =
      .ok { root := ⟨true, []⟩, commit := .pending ⟨true, []⟩ } := rfl
  obtain ⟨hiff, halike⟩ := selects_alike_through_options haccepted hkey hothers
  obtain ⟨o, ho⟩ := hiff.2 nofun
  exact ⟨o, ho, halike o ho⟩

/-- A pattern object selects by itself, but is refused as an option. -/
theorem pattern_object_refused :
    Selector.allOfValue (.selector (.exact "a")) = .ok (some [.exact "a"]) ∧
      Options.ofValue (.dict []) ⟨true, []⟩ ⟨true, []⟩ [] =
        .ok { root := ⟨true, []⟩, commit := .pending ⟨true, []⟩ } ∧
      Options.ofValue (.dict [(.str "namespaces", .selector (.exact "a"))])
        ⟨true, []⟩ ⟨true, []⟩ [] = .error .wrongKind :=
  ⟨rfl, rfl, rfl⟩

end Docsmith
