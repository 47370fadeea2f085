import Docsmith.Proofs.Contributions
import Docsmith.Proofs.Conversion
import Docsmith.Source.Dialect

/-!
# Private definitions

The variables of a namespace are those of its definitions, one after the other.  A definition is
private by its definer, by the metadata of its name, or by the map in its body, which is written
over that metadata.  The first two keep it from the namespace; the third does not.
-/

namespace Docsmith

namespace Definition

/-! ## Definitions of variables -/

/-- A definition of a variable: its definer and the kind of variable that it makes, the name with
its metadata, and the forms behind the name. -/
structure Statement where
  definer : Text
  kind : Text
  name : Text
  attrs : Attrs
  body : List Form

def statement? : Form → Option Statement
  | .coll .list _ (.symbol head _ :: .symbol name attrs :: body) =>
      (kinds.get? (localName head)).map fun kind => ⟨localName head, kind, name, attrs, body⟩
  | _ => none

namespace Statement

/-- The metadata of the name with the map of the body written over it.  The body of a plain
variable has none. -/
def metadata (s : Statement) : Attrs :=
  if s.kind = "var" then s.attrs else overlaid s.attrs (takeDoc s.body).2

def Private (s : Statement) : Prop := s.definer = "defn-" ∨ isPrivate s.metadata = true

/-- Neither the definer nor the metadata of the name says what the map of the body says. -/
def PrivateByMap (s : Statement) : Prop :=
  s.definer ≠ "defn-" ∧ isPrivate s.attrs = false ∧ isPrivate s.metadata = true

def Passed (macros : Bool) (s : Statement) : Prop :=
  s.definer = "defn-" ∨ isPrivate s.attrs = true ∨ s.kind = "macro" ∧ macros = false

end Statement

theorem publics_of_namespaceOf {hd : Header} {vars : List Var} {ns : Namespace}
    (h : namespaceOf hd vars = .ok ns) : ns.publics = vars := by
  obtain ⟨_, _, _, _, _, -, -, -, -, rfl⟩ := exists_of_namespaceOf h
  rfl

theorem name_of_toVar {name kind file : Text} {line : Nat} {b : Body} {v : Var}
    (h : toVar name kind file line b = .ok v) : v.name = name := by
  obtain ⟨_, _, _, _, -, -, -, -, rfl⟩ := exists_of_toVar h
  rfl

theorem contribution_of_statement {macros : Bool} {ns file : Text} {f : Form} {s : Statement}
    (hs : statement? f = some s) {part : List Var}
    (h : contribution macros ns file f = .ok part) :
    s.Passed macros ∧ part = [] ∨ ¬s.Passed macros ∧ ∃ v, part = [v] ∧ v.name = s.name := by
  unfold statement? at hs
  split at hs
  case h_2 => cases hs
  case h_1 line head _ name attrs body =>
    obtain ⟨kind, hkind, rfl⟩ := Option.map_eq_some_iff.1 hs
    have hdefiner : ¬(localName head = "defrecord" || localName head = "deftype") = true := by
      intro hrecord
      have hnone : kinds.get? (localName head) = none := by
        rcases Bool.or_eq_true_iff.1 hrecord with hname | hname
        · rw [of_decide_eq_true hname]
          rfl
        · rw [of_decide_eq_true hname]
          rfl
      rw [hkind] at hnone
      cases hnone
    have hpassed : Statement.Passed macros ⟨localName head, kind, name, attrs, body⟩ ↔
        (localName head = "defn-" || isPrivate attrs || (kind = "macro" && !macros)) = true := by
      simp [Statement.Passed, or_assoc]
    rw [hpassed]
    simp only [contribution, publics] at h
    rw [if_neg hdefiner, hkind] at h
    dsimp only at h
    split at h
    case isTrue hpass =>
      cases h
      exact .inl ⟨hpass, rfl⟩
    case isFalse hpublic =>
      obtain ⟨b, -, h⟩ := exists_of_bind_eq_ok h
      obtain ⟨v, hv, h⟩ := exists_of_bind_eq_ok h
      cases h
      exact .inr ⟨hpublic, v, rfl, name_of_toVar hv⟩

theorem Statement.Private.passed_iff {s : Statement} (h : s.Private) (macros : Bool) :
    s.Passed macros ↔ ¬s.PrivateByMap ∨ s.kind = "macro" ∧ macros = false := by
  unfold Private at h
  unfold Passed PrivateByMap
  cases hattrs : isPrivate s.attrs with
  | true => simp
  | false =>
      by_cases hdefiner : s.definer = "defn-"
      · simp [hdefiner]
      · simp [hdefiner, h.resolve_left hdefiner]

end Definition

/-! ## Texts -/

namespace Dialect

open Definition

/-- The namespace of a text has what the forms behind its header contribute.  Of the private
definitions among them just those contribute, with their variable, that only their map makes
private; a macro does not where the dialect passes over macros. -/
theorem private_contributes_iff {d : Dialect} {file : SourceFile} {text : Text} {ns : Namespace}
    (h : d.namespaceOfText file (.ok text) = .ok (some ns)) :
    ∃ before first hd rest parts, Form.readAll d.features text = .ok (before ++ first :: rest) ∧
      (∀ f ∈ before, header? f = none) ∧ header? first = some hd ∧
      List.Forall₂ (fun f part =>
        contribution d.macros hd.name file.relativeName f = .ok part ∧
        ∀ s, statement? f = some s → s.Private →
          (part = [] ↔ ¬s.PrivateByMap ∨ s.kind = "macro" ∧ d.macros = false) ∧
          ∀ v ∈ part, v.name = s.name) rest parts ∧
      ns.publics = parts.flatten := by
  unfold namespaceOfText at h
  simp only at h
  split at h
  case h_1 => cases h
  case h_2 forms hforms =>
    obtain ⟨before, first, hd, rest, vars, rfl, hbefore, hfirst, hvars, hns⟩ :=
      exists_header_of_ofForms h
    obtain ⟨parts, hparts, rfl⟩ := exists_parts_of_publicsOf hvars
    refine ⟨before, first, hd, rest, parts, hforms, hbefore, hfirst, ?_,
      publics_of_namespaceOf hns⟩
    refine hparts.imp fun f part hpart => ⟨hpart, fun s hs hprivate => ?_⟩
    rw [← hprivate.passed_iff d.macros]
    rcases contribution_of_statement hs hpart with ⟨hpassed, rfl⟩ | ⟨hpassed, v, rfl, hname⟩
    · simp [hpassed]
    · simp [hpassed, hname]

theorem exists_namespace_of_names {d : Dialect} {file : SourceFile} {text : Text}
    {names : List Text}
    (h : (d.namespaceOfText file (.ok text)).toOption.map
      (Option.map fun ns => ns.publics.map Var.name) = some (some names)) :
    ∃ ns, d.namespaceOfText file (.ok text) = .ok (some ns) ∧ ns.publics.map Var.name = names := by
  match hread : d.namespaceOfText file (.ok text) with
  | .error e =>
      rw [hread] at h
      cases h
  | .ok none =>
      rw [hread] at h
      cases h
  | .ok (some ns) =>
      rw [hread] at h
      exact ⟨ns, rfl, Option.some.inj (Option.some.inj h)⟩

def markedFile : SourceFile := ⟨⟨false, ["a.clj"]⟩, "a.clj"⟩

/-- Definitions that are private by the metadata of the name, by a map and by the definer. -/
def markedThrice : Text := "(ns a)(def ^:private b 1)(defn f \x7b:private true\x7d [])(defn- g [])"

/-- The variable of the second of them is reported. -/
theorem private_contributes_iff_markedThrice :
    ∃ ns, clojure.namespaceOfText markedFile (.ok markedThrice) = .ok (some ns) ∧
      ns.publics.map Var.name = ["f"] ∧
      ∃ before first rest parts,
        Form.readAll clojure.features markedThrice = .ok (before ++ first :: rest) ∧
        List.Forall₂ (fun f part => ∀ s, statement? f = some s → s.Private →
          (part = [] ↔ ¬s.PrivateByMap ∨ s.kind = "macro" ∧ clojure.macros = false)) rest parts ∧
        ns.publics = parts.flatten := by
  have hnames : (clojure.namespaceOfText markedFile (.ok markedThrice)).toOption.map
      (Option.map fun ns => ns.publics.map Var.name) = some (some [Text.ofString "f"]) := by
    decide +kernel
  obtain ⟨ns, hns, hnames⟩ := exists_namespace_of_names hnames
  obtain ⟨before, first, hd, rest, parts, hforms, -, -, hparts, hpublics⟩ :=
    private_contributes_iff hns
  refine ⟨ns, hns, hnames, before, first, rest, parts, hforms, ?_, hpublics⟩
  exact hparts.imp fun f part hpart s hs hprivate => (hpart.2 s hs hprivate).1

def markedInMap : Text := "(ns a)\n(defn f \x7b:private true\x7d [x] x)"

/-- It is the one definition of the text, it is private, and the namespace has it. -/
theorem private_by_map_contributes :
    ∃ forms s ns, Form.readAll clojure.features markedInMap = .ok forms ∧
      forms.filterMap statement? = [s] ∧ s.Private ∧
      clojure.namespaceOfText markedFile (.ok markedInMap) = .ok (some ns) ∧
      ns.publics.map Var.name = [s.name] := by
  have hnames : (clojure.namespaceOfText markedFile (.ok markedInMap)).toOption.map
      (Option.map fun ns => ns.publics.map Var.name) = some (some [Text.ofString "f"]) := by
    decide +kernel
  obtain ⟨ns, hns, hnames⟩ := exists_namespace_of_names hnames
  have hmarked : (Form.readAll clojure.features markedInMap).toOption.map
      (fun forms => (forms.filterMap statement?).map fun s => (s.name, isPrivate s.metadata)) =
        some [(Text.ofString "f", true)] := by decide +kernel
  match hforms : Form.readAll clojure.features markedInMap with
  | .error e =>
      rw [hforms] at hmarked
      cases hmarked
  | .ok forms =>
      rw [hforms] at hmarked
      obtain ⟨s, hs, hfacts⟩ := List.map_eq_singleton_iff.1 (Option.some.inj hmarked)
      obtain ⟨hname, hprivate⟩ := Prod.mk.inj hfacts
      exact ⟨forms, s, ns, rfl, hs, .inr hprivate, hns, hname ▸ hnames⟩

end Dialect

end Docsmith
