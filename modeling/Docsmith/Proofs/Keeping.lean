import Docsmith.Pipeline.Defaults
import Docsmith.Proofs.Sequencing

/-!
# What completion keeps

Source paths and defaults complete a namespace in place.  What was set before stays as it
was: names, fields that are not null, entries of the metadata, and the number and the order
of variables and members.
-/

namespace Docsmith

/-! ## Dictionaries with texts as keys -/

theorem Value.sameKey_str_iff {v : Value} {t : Text} : v.sameKey (.str t) = true ↔ v = .str t := by
  cases v <;> simp [Value.sameKey, Value.integer?]

namespace Dict

def ofTable (t : Table Text Value) : Dict := t.map fun e => (.str e.1, e.2)

def TextKeyed (d : Dict) : Prop := ∃ t : Table Text Value, (t.map Prod.fst).Nodup ∧ d = ofTable t

theorem get?_cons_self (t : Text) (v : Value) (d : Dict) :
    get? ((.str t, v) :: d) (.str t) = some v := by
  simp [get?, Value.sameKey]

theorem get?_cons_of_ne {k : Value} {t : Text} (h : k ≠ .str t) (v : Value) (d : Dict) :
    get? ((k, v) :: d) (.str t) = get? d (.str t) := by
  have hkey : k.sameKey (.str t) = false := Bool.eq_false_iff.2 fun hk =>
    h (Value.sameKey_str_iff.1 hk)
  simp [get?, hkey]

theorem get?_insert_self (t : Text) (v : Value) (d : Dict) :
    get? (insert (.str t) v d) (.str t) = some v := by
  induction d with
  | nil => exact get?_cons_self t v []
  | cons e r ih =>
      obtain ⟨k, old⟩ := e
      by_cases hk : k = .str t
      · subst hk
        simp [insert, get?, Value.sameKey]
      · have hkey : ¬k.sameKey (.str t) = true := fun h => hk (Value.sameKey_str_iff.1 h)
        rw [insert, if_neg hkey, get?_cons_of_ne hk, ih]

theorem get?_insert_of_ne {s t : Text} (h : s ≠ t) (v : Value) (d : Dict) :
    get? (insert (.str s) v d) (.str t) = get? d (.str t) := by
  have hst : Value.str s ≠ .str t := by simpa using h
  induction d with
  | nil => exact get?_cons_of_ne hst v []
  | cons e r ih =>
      obtain ⟨k, old⟩ := e
      by_cases hk : k = .str s
      · subst hk
        simp only [insert, Value.sameKey, decide_true, if_true]
        rw [get?_cons_of_ne hst, get?_cons_of_ne hst]
      · have hkey : ¬k.sameKey (.str s) = true := fun h => hk (Value.sameKey_str_iff.1 h)
        rw [insert, if_neg hkey]
        by_cases hkt : k = .str t
        · subst hkt
          rw [get?_cons_self, get?_cons_self]
        · rw [get?_cons_of_ne hkt, get?_cons_of_ne hkt, ih]

theorem get?_update_of_not_mem {own : Table Text Value} {t : Text} (h : t ∉ own.map Prod.fst)
    (d : Dict) : get? (update d (ofTable own)) (.str t) = get? d (.str t) := by
  induction own generalizing d with
  | nil => rfl
  | cons e r ih =>
      obtain ⟨hne, hr⟩ := List.ne_and_not_mem_of_not_mem_cons h
      have hrest := ih hr (insert (.str e.1) e.2 d)
      rw [get?_insert_of_ne (Ne.symm hne)] at hrest
      exact hrest

theorem get?_update_of_mem {own : Table Text Value} (nodup : (own.map Prod.fst).Nodup)
    {e : Text × Value} (he : e ∈ own) (d : Dict) :
    get? (update d (ofTable own)) (.str e.1) = some e.2 := by
  induction own generalizing d with
  | nil => cases he
  | cons first r ih =>
      obtain ⟨hfirst, nodup⟩ := List.nodup_cons.1 nodup
      rcases List.mem_cons.1 he with rfl | he
      · have hkept := get?_update_of_not_mem hfirst (insert (.str e.1) e.2 d)
        rw [get?_insert_self] at hkept
        exact hkept
      · exact ih nodup he (insert (.str first.1) first.2 d)

theorem get?_ofTable_of_mem {own : Table Text Value} (nodup : (own.map Prod.fst).Nodup)
    {e : Text × Value} (he : e ∈ own) : get? (ofTable own) (.str e.1) = some e.2 := by
  induction own with
  | nil => cases he
  | cons first r ih =>
      obtain ⟨hfirst, nodup⟩ := List.nodup_cons.1 nodup
      rcases List.mem_cons.1 he with rfl | he
      · exact get?_cons_self e.1 e.2 (ofTable r)
      · have hne : Value.str first.1 ≠ .str e.1 := by
          rintro heq
          rw [Value.str.inj heq] at hfirst
          exact hfirst (List.mem_map_of_mem he)
        exact (get?_cons_of_ne hne first.2 (ofTable r)).trans (ih nodup he)

def Within (d d' : Dict) : Prop := ∀ e ∈ d, get? d' e.1 = some e.2

theorem TextKeyed.within_update {own : Dict} (h : TextKeyed own) (d : Dict) :
    Within own (update d own) := by
  obtain ⟨t, nodup, rfl⟩ := h
  intro e he
  obtain ⟨entry, hentry, rfl⟩ := List.mem_map.1 he
  exact get?_update_of_mem nodup hentry d

theorem TextKeyed.within_self {own : Dict} (h : TextKeyed own) : Within own own := by
  obtain ⟨t, nodup, rfl⟩ := h
  intro e he
  obtain ⟨entry, hentry, rfl⟩ := List.mem_map.1 he
  exact get?_ofTable_of_mem nodup hentry

end Dict

theorem within_fillAttrs {own : Dict} (h : own.TextKeyed) (isField : Text → Bool)
    (defaults : Dict) : own.Within (fillAttrs isField defaults own) := by
  unfold fillAttrs
  dsimp only
  split
  · exact h.within_self
  · exact h.within_update _

/-! ## Fields -/

def Value.Keeps (v v' : Value) : Prop := v ≠ .null → v' = v

theorem Value.keeps_fill (defaults : Dict) (field : Text) (v : Value) :
    v.Keeps (fill defaults field v) := by
  intro hv
  cases v with
  | null => exact absurd rfl hv
  | _ => rfl

/-- What is known of a variable is still known, and nothing of it has changed. -/
structure VarFacts.Kept (f f' : VarFacts) : Prop where
  name : f'.name = f.name
  kind : f'.kind = f.kind
  arglists : f'.arglists = f.arglists
  doc : f.doc.Keeps f'.doc
  noDoc : f.noDoc.Keeps f'.noDoc
  added : f.added.Keeps f'.added
  deprecated : f.deprecated.Keeps f'.deprecated
  file : f.file.Keeps f'.file
  line : f.line.Keeps f'.line
  path : f.path.Keeps f'.path
  attrs : f.attrs.Within f'.attrs

/-- The same of a namespace, its variables apart. -/
structure Namespace.Kept (ns ns' : Namespace) : Prop where
  name : ns'.name = ns.name
  doc : ns.doc.Keeps ns'.doc
  noDoc : ns.noDoc.Keeps ns'.noDoc
  added : ns.added.Keeps ns'.added
  deprecated : ns.deprecated.Keeps ns'.deprecated
  author : ns.author.Keeps ns'.author
  attrs : ns.attrs.Within ns'.attrs

structure VarFacts.Fresh (f : VarFacts) : Prop where
  path : f.path = .null
  attrs : f.attrs.TextKeyed

def VarFacts.Located (f f' : VarFacts) : Prop := ∃ path, f' = { f with path := path }

theorem VarFacts.Fresh.kept_overlay {f f' : VarFacts} (fresh : f.Fresh) (located : f.Located f')
    (defaults : Dict) : f.Kept (f'.overlay defaults) := by
  obtain ⟨path, rfl⟩ := located
  exact {
    name := rfl
    kind := rfl
    arglists := rfl
    doc := Value.keeps_fill _ _ _
    noDoc := Value.keeps_fill _ _ _
    added := Value.keeps_fill _ _ _
    deprecated := Value.keeps_fill _ _ _
    file := Value.keeps_fill _ _ _
    line := Value.keeps_fill _ _ _
    path := fun hpath => absurd fresh.path hpath
    attrs := within_fillAttrs fresh.attrs _ _ }

theorem Namespace.kept_overlay {ns : Namespace} (h : ns.attrs.TextKeyed) (defaults : Dict)
    (publics : List Var) : ns.Kept { ns.overlay defaults with publics := publics } where
  name := rfl
  doc := Value.keeps_fill _ _ _
  noDoc := Value.keeps_fill _ _ _
  added := Value.keeps_fill _ _ _
  deprecated := Value.keeps_fill _ _ _
  author := Value.keeps_fill _ _ _
  attrs := within_fillAttrs h _ _

/-! ## Trees of variables -/

namespace Var

inductive Related (r : VarFacts → VarFacts → Prop) : Var → Var → Prop
  | mk {f f' : VarFacts} {vs vs' : List Var} (facts : r f f')
      (members : List.Forall₂ (Related r) vs vs') : Related r (.mk f vs) (.mk f' vs')

section

variable {r : VarFacts → VarFacts → Prop} {g : VarFacts → VarFacts}

mutual
theorem related_map : (v : Var) → (∀ f ∈ v.flatten, r f (g f)) → Related r v (map g v)
  | .mk f vs, h =>
      .mk (h f List.mem_cons_self)
        (related_mapAll vs fun f' hf => h f' (List.mem_cons_of_mem _ hf))

theorem related_mapAll : (vs : List Var) → (∀ f ∈ flattenAll vs, r f (g f)) →
    List.Forall₂ (Related r) vs (mapAll g vs)
  | [], _ => .nil
  | v :: vs, h =>
      .cons (related_map v fun f hf => h f (List.mem_append_left _ hf))
        (related_mapAll vs fun f hf => h f (List.mem_append_right _ hf))
end

end

def Kept : Var → Var → Prop := Related VarFacts.Kept

theorem Kept.name {v v' : Var} (h : v.Kept v') : v'.name = v.name := by
  cases h with
  | mk facts members => exact facts.name

def Fresh (v : Var) : Prop := ∀ f ∈ v.flatten, f.Fresh

def AllFresh (vs : List Var) : Prop := ∀ f ∈ flattenAll vs, f.Fresh

theorem allFresh_iff {vs : List Var} : AllFresh vs ↔ ∀ v ∈ vs, v.Fresh := by
  induction vs with
  | nil => simp [AllFresh, flattenAll]
  | cons v vs ih =>
      simp only [AllFresh, flattenAll, List.mem_append, or_imp, forall_and, List.mem_cons,
        forall_eq] at ih ⊢
      rw [ih]
      rfl

mutual
theorem kept_map_overlay (defaults : Dict) : (v v' : Var) → v.Fresh →
    Related VarFacts.Located v v' → v.Kept (v'.map (VarFacts.overlay defaults))
  | .mk f members, .mk f' members', fresh, .mk located hmembers => by
      have hfresh : AllFresh members := fun g hg => fresh g (List.mem_cons_of_mem _ hg)
      exact .mk ((fresh f List.mem_cons_self).kept_overlay located defaults)
        (kept_mapAll_overlay defaults members members' hfresh hmembers)

theorem kept_mapAll_overlay (defaults : Dict) : (vs vs' : List Var) → AllFresh vs →
    List.Forall₂ (Related VarFacts.Located) vs vs' →
    List.Forall₂ Kept vs (mapAll (VarFacts.overlay defaults) vs')
  | [], [], _, _ => .nil
  | v :: vs, v' :: vs', fresh, .cons hv hvs => by
      have hfirst : v.Fresh := fun f hf => fresh f (List.mem_append_left _ hf)
      have hrest : AllFresh vs := fun f hf => fresh f (List.mem_append_right _ hf)
      exact .cons (kept_map_overlay defaults v v' hfirst hv)
        (kept_mapAll_overlay defaults vs vs' hrest hvs)
end

end Var

/-! ## Source paths -/

section

variable (t : FileTree) (cwd root : Path) (roots : List Path)

theorem gives_sourcePath (name : Text) (file : Value) :
    Searching.Gives (sourcePath t cwd root roots name file) fun _ => True := by
  intro s path s' h
  refine ⟨trivial, fun hquiet => ?_⟩
  unfold sourcePath at h
  split at h
  · cases h
  split at h
  · cases h
    exact hquiet
  split at h
  · cases h
  · cases h
    exact hquiet
  · cases h
    refine quiet_append hquiet ?_
    simp [Quiet, missingRecord]

theorem gives_locate (f : VarFacts) :
    Searching.Gives (locate t cwd root roots f) f.Located := by
  unfold locate
  split
  · refine Searching.gives_bind (gives_sourcePath t cwd root roots f.name f.file) fun path _ => ?_
    cases path with
    | none => exact Searching.gives_pure ⟨f.path, rfl⟩
    | some path => exact Searching.gives_pure ⟨.str path, rfl⟩
  · exact Searching.gives_pure ⟨f.path, rfl⟩

end

mutual
theorem gives_mapM_related {step : VarFacts → Searching VarFacts} {r : VarFacts → VarFacts → Prop}
    (hstep : ∀ f, Searching.Gives (step f) (r f)) :
    (v : Var) → Searching.Gives (Var.mapM' step v) (Var.Related r v)
  | .mk f vs => by
      refine Searching.gives_bind (hstep f) fun f' hf => ?_
      refine Searching.gives_bind (gives_mapAllM_related hstep vs) fun vs' hvs => ?_
      exact Searching.gives_pure (.mk hf hvs)

theorem gives_mapAllM_related {step : VarFacts → Searching VarFacts}
    {r : VarFacts → VarFacts → Prop} (hstep : ∀ f, Searching.Gives (step f) (r f)) :
    (vs : List Var) → Searching.Gives (Var.mapAllM' step vs) (List.Forall₂ (Var.Related r) vs)
  | [] => Searching.gives_pure .nil
  | v :: vs => by
      refine Searching.gives_bind (gives_mapM_related hstep v) fun v' hv => ?_
      refine Searching.gives_bind (gives_mapAllM_related hstep vs) fun vs' hvs => ?_
      exact Searching.gives_pure (.cons hv hvs)
end

def Namespace.Located (ns ns' : Namespace) : Prop :=
  ∃ publics, List.Forall₂ (Var.Related VarFacts.Located) ns.publics publics ∧
    ns' = { ns with publics := publics }

theorem located_of_addSourcePaths {t : FileTree} {cwd root : Path} {sources : List Path}
    {nss nss' : List Namespace} {log : List LogRecord}
    (h : addSourcePaths t cwd root sources nss = .ok (nss', log)) :
    List.Forall₂ Namespace.Located nss nss' ∧ Quiet log := by
  obtain ⟨⟨found, search⟩, hfound, h⟩ := exists_of_bind_eq_ok h
  cases h
  have hstep := gives_locate t cwd root (sources.map root.join)
  have hgives := Searching.gives_mapM (fun ns : Namespace =>
    Searching.gives_bind (gives_mapAllM_related hstep ns.publics) fun publics hpublics =>
      Searching.gives_pure (show ns.Located { ns with publics := publics } from
        ⟨publics, hpublics, rfl⟩)) nss
  obtain ⟨hlocated, hquiet⟩ := hgives _ _ _ hfound
  exact ⟨hlocated, hquiet nofun⟩

/-! ## Namespaces -/

structure Namespace.Fresh (ns : Namespace) : Prop where
  attrs : ns.attrs.TextKeyed
  publics : ∀ v ∈ ns.publics, v.Fresh

def Namespace.Completes (ns ns' : Namespace) : Prop :=
  ns.Kept ns' ∧ List.Forall₂ Var.Kept ns.publics ns'.publics

theorem completes_of_located {ns ns' : Namespace} (fresh : ns.Fresh) (located : ns.Located ns')
    (defaults : Dict) :
    ns.Completes { ns'.overlay defaults with
      publics := Var.mapAll (VarFacts.overlay defaults) ns'.publics } := by
  obtain ⟨publics, hpublics, rfl⟩ := located
  have hfresh : Var.AllFresh ns.publics := Var.allFresh_iff.2 fresh.publics
  exact ⟨Namespace.kept_overlay fresh.attrs defaults _,
    Var.kept_mapAll_overlay defaults _ _ hfresh hpublics⟩

theorem completes_addDefaults {nss nss' : List Namespace} (fresh : ∀ ns ∈ nss, ns.Fresh)
    (located : List.Forall₂ Namespace.Located nss nss') (defaults : Dict) :
    List.Forall₂ Namespace.Completes nss (addDefaults defaults nss') := by
  induction located with
  | nil => exact .nil
  | cons hns _ ih =>
      exact .cons (completes_of_located (fresh _ List.mem_cons_self) hns defaults)
        (ih fun ns hmem => fresh ns (List.mem_cons_of_mem _ hmem))

/-- Where the keys of the defaults can be written out, or need not be, they complete all. -/
theorem eq_addDefaults_of_complete {defaults : Dict} {nss result : List Namespace}
    (h : complete defaults nss = .ok result) : result = addDefaults defaults nss := by
  unfold complete at h
  split at h <;> cases h
  rfl

end Docsmith
