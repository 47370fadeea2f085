import Docsmith.Proofs.Outcome
import Docsmith.Source.Definition

/-!
# What the forms of a file contribute

The first header among the forms of a file names its namespace.  Every form behind it contributes
variables of its own, and the namespace has them one after the other.
-/

namespace Docsmith

theorem exists_parts_of_foldlM {ε α β : Type} {f : α → Except ε (List β)} {as : List α}
    {start bs : List β} (h : as.foldlM (fun bs a => return bs ++ (← f a)) start = .ok bs) :
    ∃ parts, List.Forall₂ (fun a part => f a = .ok part) as parts ∧
      bs = start ++ parts.flatten := by
  induction as generalizing start with
  | nil =>
      cases h
      exact ⟨[], .nil, by simp⟩
  | cons a as ih =>
      rw [List.foldlM_cons] at h
      obtain ⟨next, hnext, h⟩ := exists_of_bind_eq_ok h
      obtain ⟨part, hpart, hnext⟩ := exists_of_bind_eq_ok hnext
      cases hnext
      obtain ⟨parts, hparts, rfl⟩ := ih h
      exact ⟨part :: parts, .cons hpart hparts, by simp⟩

namespace Definition

/-! ## What a definition gives -/

def Body.listed (b : Body) : List Form :=
  match b.attrs.get? "arglists" with
  | some f => explicitVectors f
  | none => b.vectors

theorem exists_of_toVar {name kind file : Text} {line : Nat} {b : Body} {v : Var}
    (h : toVar name kind file line b = .ok v) :
    ∃ arglists added deprecated attrs, writeAll b.listed = .ok arglists ∧
      version (b.attrs.get? "added") = .ok added ∧
      version (b.attrs.get? "deprecated") = .ok deprecated ∧
      extraAttrs (withoutFields ["arglists", "doc", "no-doc", "added", "deprecated"] b.attrs) =
        .ok attrs ∧
      v = .mk
        { name := name, kind := kind, doc := docOf b.attrs b.doc, arglists := arglists,
          noDoc := flag (b.attrs.get? "no-doc"), added := added, deprecated := deprecated,
          file := .str file, line := .int line, attrs := attrs } b.members := by
  obtain ⟨implicit, himplicit, h⟩ := exists_of_bind_eq_ok h
  dsimp only at h
  split at h
  case' h_1 hlists | h_2 hlists =>
    obtain ⟨arglists, harglists, h⟩ := exists_of_bind_eq_ok h
    obtain ⟨added, hadded, h⟩ := exists_of_bind_eq_ok h
    obtain ⟨deprecated, hdeprecated, h⟩ := exists_of_bind_eq_ok h
    obtain ⟨attrs, hattrs, h⟩ := exists_of_bind_eq_ok h
    cases h
    refine ⟨arglists, added, deprecated, attrs, ?_, hadded, hdeprecated, hattrs, rfl⟩
  · rw [Body.listed, hlists]
    exact harglists
  · cases harglists
    rw [Body.listed, hlists]
    exact himplicit

theorem exists_of_mem_factories {isRecord : Bool} {ns file name fields : Text} {line : Nat}
    {v : Var} (h : v ∈ factories isRecord ns file name line fields) :
    ∃ own doc arglist,
      v = .mk
        { name := own, kind := "fn", doc := .str doc, arglists := [arglist], file := .str file,
          line := .int line } [] ∧
      (arglist = fields ∨ arglist = "[m]") := by
  unfold factories at h
  cases isRecord with
  | true =>
      simp only [if_true, List.mem_cons, List.not_mem_nil, or_false] at h
      rcases h with rfl | rfl
      · exact ⟨_, _, _, rfl, .inl rfl⟩
      · exact ⟨_, _, _, rfl, .inr rfl⟩
  | false =>
      simp only [Bool.false_eq_true, if_false, List.mem_singleton] at h
      exact ⟨_, _, _, h, .inl rfl⟩

/-- What the forms after a definer give: the factories of a record or type, a variable of their
own, or nothing. -/
inductive Publishes (macros : Bool) (ns file head : Text) (line : Nat) :
    List Form → List Var → Prop
  | nothing (rest : List Form) : Publishes macros ns file head line rest []
  | factories {name fields : Text} {attrs : Attrs} {start : Nat} {items rest : List Form}
      (isRecord : Bool) (writes : write (.coll .vector start items) = .ok fields) :
      Publishes macros ns file head line (.symbol name attrs :: .coll .vector start items :: rest)
        (factories isRecord ns file name line fields)
  | single {name kind : Text} {attrs : Attrs} {rest : List Form} {b : Body} {v : Var}
      (known : kinds.get? (localName head) = some kind) (visible : kind = "macro" → macros = true)
      (body : bodyOf kind file attrs rest = .ok b) (made : toVar name kind file line b = .ok v) :
      Publishes macros ns file head line (.symbol name attrs :: rest) [v]

theorem publishes_of_publics {macros : Bool} {ns file head : Text} {line : Nat}
    {rest : List Form} {vars : List Var} (h : publics macros ns file head line rest = .ok vars) :
    Publishes macros ns file head line rest vars := by
  unfold publics at h
  dsimp only at h
  split at h
  · split at h
    · split at h
      · cases h
        exact .nothing _
      · obtain ⟨fields, hfields, h⟩ := exists_of_bind_eq_ok h
        cases h
        exact .factories _ hfields
    · cases h
      exact .nothing _
  · split at h
    case h_1 kind name attrs rest hkind =>
      split at h
      case isTrue =>
        cases h
        exact .nothing _
      case isFalse hpublic =>
        obtain ⟨b, hb, h⟩ := exists_of_bind_eq_ok h
        obtain ⟨v, hv, h⟩ := exists_of_bind_eq_ok h
        cases h
        refine .single hkind (fun hmacro => ?_) hb hv
        simp_all
    case h_2 =>
      cases h
      exact .nothing _

theorem exists_of_namespaceOf {hd : Header} {vars : List Var} {ns : Namespace}
    (h : namespaceOf hd vars = .ok ns) :
    ∃ attrs rest added deprecated extra,
      takeAttrs hd.attrs (takeDoc hd.rest).2 = .ok (attrs, rest) ∧
      version (attrs.get? "added") = .ok added ∧
      version (attrs.get? "deprecated") = .ok deprecated ∧
      extraAttrs (withoutFields ["doc", "author", "no-doc", "added", "deprecated"] attrs) =
        .ok extra ∧
      ns =
        { name := some hd.name, doc := docOf attrs (takeDoc hd.rest).1, publics := vars,
          noDoc := flag (attrs.get? "no-doc"), added := added, deprecated := deprecated,
          author := textOnly (attrs.get? "author"), attrs := extra } := by
  obtain ⟨⟨attrs, rest⟩, htaken, h⟩ := exists_of_bind_eq_ok h
  obtain ⟨added, hadded, h⟩ := exists_of_bind_eq_ok h
  obtain ⟨deprecated, hdeprecated, h⟩ := exists_of_bind_eq_ok h
  obtain ⟨extra, hextra, h⟩ := exists_of_bind_eq_ok h
  cases h
  exact ⟨attrs, rest, added, deprecated, extra, htaken, hadded, hdeprecated, hextra, rfl⟩

/-! ## What the forms of a file give -/

/-- The variables that a form behind the header gives to the namespace. -/
def contribution (macros : Bool) (ns file : Text) : Form → Except Failure (List Var)
  | .coll .list line (.symbol head _ :: rest) => publics macros ns file head line rest
  | _ => .ok []

theorem contribution_of_other {f : Form}
    (h : ∀ line head attrs rest, f ≠ .coll .list line (.symbol head attrs :: rest))
    (macros : Bool) (ns file : Text) : contribution macros ns file f = .ok [] := by
  unfold contribution
  split
  · exact absurd rfl (h _ _ _ _)
  · rfl

theorem publicsOf_eq (macros : Bool) (ns file : Text) (forms : List Form) :
    publicsOf macros ns file forms =
      forms.foldlM (fun vars f => return vars ++ (← contribution macros ns file f)) [] := by
  unfold publicsOf
  congr 1
  funext vars f
  split
  case h_1 => rfl
  case h_2 hother =>
    rw [contribution_of_other hother]
    exact congrArg Except.ok (List.append_nil vars).symm

theorem exists_parts_of_publicsOf {macros : Bool} {ns file : Text} {forms : List Form}
    {vars : List Var} (h : publicsOf macros ns file forms = .ok vars) :
    ∃ parts, List.Forall₂ (fun f part => contribution macros ns file f = .ok part) forms parts ∧
      vars = parts.flatten := by
  rw [publicsOf_eq] at h
  exact exists_parts_of_foldlM h

theorem exists_of_mem_publicsOf {macros : Bool} {ns file : Text} {forms : List Form}
    {vars : List Var} (h : publicsOf macros ns file forms = .ok vars) {v : Var} (hv : v ∈ vars) :
    ∃ line head attrs rest part, .coll .list line (.symbol head attrs :: rest) ∈ forms ∧
      publics macros ns file head line rest = .ok part ∧ v ∈ part := by
  obtain ⟨parts, hparts, rfl⟩ := exists_parts_of_publicsOf h
  clear h
  induction hparts with
  | nil => simp at hv
  | @cons f part forms parts hpart _ ih =>
      rcases List.mem_append.1 hv with hv | hv
      · unfold contribution at hpart
        split at hpart
        · exact ⟨_, _, _, _, part, List.mem_cons_self, hpart, hv⟩
        · cases hpart
          cases hv
      · obtain ⟨line, head, attrs, rest, part, hmem, hpart, hv⟩ := ih hv
        exact ⟨line, head, attrs, rest, part, List.mem_cons_of_mem _ hmem, hpart, hv⟩

theorem exists_header_of_ofForms {macros : Bool} {file : Text} {forms : List Form} {ns : Namespace}
    (h : ofForms macros file forms = .ok (some ns)) :
    ∃ before first hd rest vars, forms = before ++ first :: rest ∧
      (∀ f ∈ before, header? f = none) ∧ header? first = some hd ∧
      publicsOf macros hd.name file rest = .ok vars ∧ namespaceOf hd vars = .ok ns := by
  induction forms with
  | nil => cases h
  | cons f forms ih =>
      unfold ofForms at h
      split at h
      case h_1 hnone =>
        obtain ⟨before, first, hd, rest, vars, rfl, hbefore, hrest⟩ := ih h
        refine ⟨f :: before, first, hd, rest, vars, rfl, ?_, hrest⟩
        exact List.forall_mem_cons.2 ⟨hnone, hbefore⟩
      case h_2 hd hfirst =>
        obtain ⟨vars, hvars, h⟩ := exists_of_bind_eq_ok h
        obtain ⟨found, hfound, h⟩ := exists_of_bind_eq_ok h
        cases h
        exact ⟨[], f, hd, forms, vars, rfl, by simp, hfirst, hvars, hfound⟩

end Definition

end Docsmith
