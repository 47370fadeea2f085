import Docsmith.Proofs.Acceptance
import Docsmith.Proofs.Contributions
import Docsmith.Proofs.Keeping

/-!
# Namespaces as they are read

No name stands twice in the metadata of a symbol.  So the metadata of a namespace and of a
variable, as they are read, has an entry for each of different texts, and no variable has a
path yet.
-/

namespace Docsmith

namespace Form

def Tidy (f : Form) : Prop :=
  ∀ name attrs, Part (.symbol name attrs) f → (attrs.map Prod.fst).Nodup

open Grammar

theorem tidy_ofName (name : Text) : Tidy (ofName name) := by
  intro own attrs h
  cases h
  exact .nil

theorem tidy_of_denotes {l : Lexeme} {f : Form} (h : Denotes l f) : Tidy f := by
  cases h with
  | str | regex | char => nofun
  | special name => exact tidy_ofName name
  | atom _ reads =>
      cases spells_of_ofAtom reads with
      | name => exact tidy_ofName _
      | _ => nofun

theorem inherited_tidy : Inherited Tidy where
  name q := tidy_ofName q.symbolName
  coll line _ h := by
    intro name attrs hpart
    cases hpart with
    | item mem part => exact h _ mem name attrs part
  item h := fun f hf name attrs hpart => h name attrs (.item hf hpart)
  annotate {m f} _ hf := by
    cases f with
    | symbol own attrs =>
        intro name all h
        cases h
        exact Table.nodup_update (hf _ _ .self) m.entries
    | _ => exact hf

theorem tidy_of_readAll {features : List Text} {t : Text} {fs : List Form}
    (h : readAll features t = .ok fs) : ∀ f ∈ fs, Tidy f := by
  obtain ⟨ts, -, hread⟩ := exists_of_bind_eq_ok h
  exact (Reader.derives_of_readTokens hread).forall_of_inherited inherited_tidy
    fun _ _ _ hdenotes => tidy_of_denotes hdenotes

end Form

namespace Definition

/-! ## Metadata -/

theorem nodup_of_takeAttrs {attrs attrs' : Attrs} {rest rest' : List Form}
    (hattrs : (attrs.map Prod.fst).Nodup) (h : takeAttrs attrs rest = .ok (attrs', rest')) :
    (attrs'.map Prod.fst).Nodup := by
  unfold takeAttrs at h
  split at h
  · obtain ⟨more, -, h⟩ := exists_of_bind_eq_ok h
    cases h
    exact Table.nodup_update hattrs more
  · cases h
    exact hattrs

theorem exists_table_of_mapM {attrs : Attrs} {d : Dict}
    (h : attrs.mapM (fun e => (e.2.toValue.map fun v => (Value.str e.1, v)).mapError
      Failure.ofValueFault) = .ok d) :
    ∃ t : Table Text Value, t.map Prod.fst = attrs.map Prod.fst ∧ d = Dict.ofTable t := by
  have hentries := forall₂_of_mapM_eq_ok h
  clear h
  induction hentries with
  | nil => exact ⟨[], rfl, rfl⟩
  | @cons e entry attrs d hentry _ ih =>
      obtain ⟨v, -, rfl⟩ := exists_of_map_eq_ok (eq_ok_of_mapError_eq_ok hentry)
      obtain ⟨t, ht, rfl⟩ := ih
      exact ⟨(e.1, v) :: t, by rw [List.map_cons, List.map_cons, ht], rfl⟩

theorem textKeyed_of_extraAttrs {attrs : Attrs} {d : Dict} (hattrs : (attrs.map Prod.fst).Nodup)
    (h : extraAttrs attrs = .ok d) : d.TextKeyed := by
  obtain ⟨t, ht, rfl⟩ := exists_table_of_mapM h
  refine ⟨t, ?_, rfl⟩
  rw [ht]
  exact hattrs.sublist (List.filter_sublist.map Prod.fst)

theorem textKeyed_of_withoutFields {attrs : Attrs} {d : Dict} {fields : List Text}
    (hattrs : (attrs.map Prod.fst).Nodup) (h : extraAttrs (withoutFields fields attrs) = .ok d) :
    d.TextKeyed :=
  textKeyed_of_extraAttrs (hattrs.sublist (List.filter_sublist.map Prod.fst)) h

/-! ## Variables -/

theorem textKeyed_nil : Dict.TextKeyed [] := ⟨[], List.nodup_nil, rfl⟩

theorem fresh_leaf {f : VarFacts} (path : f.path = .null) (attrs : f.attrs = []) :
    (Var.mk f []).Fresh := by
  intro g hg
  obtain rfl : g = f := by simpa [Var.flatten, Var.flattenAll] using hg
  exact ⟨path, attrs ▸ textKeyed_nil⟩

theorem fresh_of_members {file : Text} {forms : List Form} {vars : List Var}
    (h : members file forms = .ok vars) : ∀ v ∈ vars, v.Fresh := by
  fun_induction members file forms generalizing vars with
  | case1 =>
      cases h
      simp
  | case2 _ _ rest ih => exact ih h
  | case3 line name attrs signature rest ih =>
      obtain ⟨arglists, -, h⟩ := exists_of_bind_eq_ok h
      obtain ⟨more, hmore, h⟩ := exists_of_bind_eq_ok h
      cases h
      intro v hv
      rcases List.mem_cons.1 hv with rfl | hv
      · exact fresh_leaf rfl rfl
      · exact ih hmore v hv
  | case4 _ rest _ _ ih => exact ih h

theorem fresh_of_factories (isRecord : Bool) (ns file name : Text) (line : Nat) (fields : Text) :
    ∀ v ∈ factories isRecord ns file name line fields, v.Fresh := by
  intro v hv
  obtain ⟨_, _, _, rfl, -⟩ := exists_of_mem_factories hv
  exact fresh_leaf rfl rfl

structure Body.Fresh (b : Body) : Prop where
  attrs : (b.attrs.map Prod.fst).Nodup
  members : ∀ v ∈ b.members, v.Fresh

theorem fresh_of_bodyOf {kind file : Text} {attrs : Attrs} {rest : List Form} {b : Body}
    (hattrs : (attrs.map Prod.fst).Nodup) (h : bodyOf kind file attrs rest = .ok b) :
    b.Fresh := by
  unfold bodyOf at h
  split at h
  · cases h
    exact ⟨hattrs, by simp⟩
  · obtain ⟨⟨attrs', rest'⟩, htaken, h⟩ := exists_of_bind_eq_ok h
    have hnodup := nodup_of_takeAttrs hattrs htaken
    simp only at h
    split at h
    · obtain ⟨vars, hvars, h⟩ := exists_of_bind_eq_ok h
      cases h
      exact ⟨hnodup, fresh_of_members hvars⟩
    · split at h
      · cases h
        exact ⟨hnodup, by simp⟩
      · cases h
        exact ⟨hnodup, by simp⟩

theorem fresh_of_toVar {name kind file : Text} {line : Nat} {b : Body} {v : Var}
    (hbody : b.Fresh) (h : toVar name kind file line b = .ok v) : v.Fresh := by
  have hmembers : Var.AllFresh b.members := Var.allFresh_iff.2 hbody.members
  obtain ⟨arglists, added, deprecated, attrs, -, -, -, hattrs, rfl⟩ := exists_of_toVar h
  intro f hf
  rcases List.mem_cons.1 hf with rfl | hf
  · exact ⟨rfl, textKeyed_of_withoutFields hbody.attrs hattrs⟩
  · exact hmembers f hf

theorem fresh_of_publics {macros : Bool} {ns file head : Text} {line : Nat} {rest : List Form}
    {vars : List Var}
    (hrest : ∀ name attrs, .symbol name attrs ∈ rest → (attrs.map Prod.fst).Nodup)
    (h : publics macros ns file head line rest = .ok vars) : ∀ v ∈ vars, v.Fresh := by
  cases publishes_of_publics h with
  | nothing => simp
  | factories => exact fresh_of_factories _ _ _ _ _ _
  | single known visible body made =>
      have hattrs := hrest _ _ List.mem_cons_self
      intro u hu
      obtain rfl := List.mem_singleton.1 hu
      exact fresh_of_toVar (fresh_of_bodyOf hattrs body) made

/-! ## Namespaces -/

theorem nodup_of_tidy_coll {shape : Shape} {line : Nat} {items : List Form}
    (h : (Form.coll shape line items).Tidy) (name : Text) (attrs : Attrs)
    (mem : .symbol name attrs ∈ items) : (attrs.map Prod.fst).Nodup :=
  h name attrs (.item mem .self)

theorem fresh_of_publicsOf {macros : Bool} {ns file : Text} {forms : List Form}
    (hforms : ∀ f ∈ forms, f.Tidy) {vars : List Var}
    (h : publicsOf macros ns file forms = .ok vars) : ∀ v ∈ vars, v.Fresh := by
  intro v hv
  obtain ⟨line, head, attrs, rest, part, hmem, hpart, hv⟩ := exists_of_mem_publicsOf h hv
  refine fresh_of_publics (fun name own hsymbol => ?_) hpart v hv
  exact nodup_of_tidy_coll (hforms _ hmem) name own (List.mem_cons_of_mem _ hsymbol)

theorem fresh_of_namespaceOf {hd : Header} {vars : List Var} {ns : Namespace}
    (hattrs : (hd.attrs.map Prod.fst).Nodup) (hvars : ∀ v ∈ vars, v.Fresh)
    (h : namespaceOf hd vars = .ok ns) : ns.Fresh := by
  obtain ⟨attrs, rest, added, deprecated, extra, htaken, -, -, hextra, rfl⟩ :=
    exists_of_namespaceOf h
  exact ⟨textKeyed_of_withoutFields (nodup_of_takeAttrs hattrs htaken) hextra, hvars⟩

theorem nodup_of_header? {f : Form} {hd : Header} (htidy : f.Tidy) (h : header? f = some hd) :
    (hd.attrs.map Prod.fst).Nodup := by
  unfold header? at h
  split at h
  case h_1 line head own name attrs rest =>
    split at h
    · cases h
      exact nodup_of_tidy_coll htidy name attrs (by simp)
    · cases h
  case h_2 => cases h

theorem fresh_of_ofForms {macros : Bool} {file : Text} {forms : List Form}
    (hforms : ∀ f ∈ forms, f.Tidy) {ns : Namespace}
    (h : ofForms macros file forms = .ok (some ns)) : ns.Fresh := by
  obtain ⟨before, first, hd, rest, vars, rfl, -, hheader, hvars, hns⟩ := exists_header_of_ofForms h
  have hfirst : first.Tidy := hforms first (by simp)
  have hrest : ∀ f ∈ rest, f.Tidy := fun f hf => hforms f (by simp [hf])
  exact fresh_of_namespaceOf (nodup_of_header? hfirst hheader) (fresh_of_publicsOf hrest hvars) hns

end Definition

end Docsmith
