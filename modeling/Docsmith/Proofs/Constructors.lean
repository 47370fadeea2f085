import Docsmith.Proofs.Matching
import Docsmith.Proofs.Readings

/-!
# Generated constructors

The exclusion that holds unless another is given takes away the names of generated
constructors: an arrow, which the word map may stand before, and a capital letter right
behind it.  A run without another exclusion leaves out just the variables of such names.
-/

namespace Docsmith

open Regex

/-! ## The names that are excluded -/

/-- An arrow, perhaps with the word map before it, and a capital letter right behind it. -/
def ConstructorName (name : Text) : Prop :=
  ∃ lead ∈ [Text.ofString "->", "map->"], ∃ c rest,
    CodePoint.isAsciiUpper c = true ∧ name = lead ++ c :: rest

theorem ConstructorName.of_lead {lead rest : Text} {c : CodePoint}
    (hlead : lead = "->" ∨ lead = "map->") (hc : c.isAsciiUpper = true) :
    ConstructorName (lead ++ c :: rest) :=
  ⟨lead, by simpa using hlead, c, rest, hc, rfl⟩

def just (c : Char) : CharSet := ⟨false, [.range c.toNat c.toNat], .exact⟩

def capital : CharSet := ⟨false, [.range 65 90], .exact⟩

def constructorLead : Node :=
  .seq (.loop .greedy 0 (some 1)
      (.group 1 (.seq (.one (just 'm')) (.seq (.one (just 'a')) (.one (just 'p'))))))
    (.seq (.one (just '-')) (.seq (.one (just '>')) (.one capital)))

def constructorPattern : Regex :=
  ⟨"^(map)?->[A-Z]", { unicode := true }, .seq (.anchor (.beginning false)) constructorLead⟩

theorem compilePosix_defaultExclusion :
    Regex.compilePosix defaultExclusion = .ok constructorPattern := by
  decide +kernel

theorem holds_just_iff (c : Char) (d : CodePoint) : (just c).holds d = true ↔ d = c := by
  obtain ⟨n, hn⟩ := d
  simp only [just, CharSet.holds, SetItem.holds, Folding.variants, List.any_cons, List.any_nil,
    Bool.or_false, Bool.bne_false, Bool.and_eq_true, decide_eq_true_eq, CodePoint.ofChar,
    CodePoint.mk.injEq]
  omega

theorem holds_capital (c : CodePoint) : capital.holds c = c.isAsciiUpper := by
  simp [capital, CharSet.holds, SetItem.holds, Folding.variants, CodePoint.isAsciiUpper]

def constructorLeads : Language CodePoint :=
  (oneFrom (just 'm') * (oneFrom (just 'a') * oneFrom (just 'p')) + 1) *
    (oneFrom (just '-') * (oneFrom (just '>') * oneFrom capital))

theorem language?_constructorLead : constructorLead.language? = some constructorLeads := rfl

theorem oneFrom_just (c : Char) : oneFrom (just c) = {[CodePoint.ofChar c]} := by
  ext s
  simp only [mem_oneFrom_iff, holds_just_iff, exists_eq_left]
  exact Iff.rfl

theorem constructorLeads_eq : constructorLeads =
    ({Text.ofString "map->"} + {Text.ofString "->"}) * oneFrom capital := by
  have hsingle (s t : Text) : ({s} : Language CodePoint) * {t} = {s ++ t} :=
    Set.image2_singleton
  simp only [constructorLeads, oneFrom_just, ← mul_assoc, hsingle, add_mul, one_mul]
  rfl

theorem mem_constructorLeads_iff {s : Text} : s ∈ constructorLeads ↔
    ∃ lead ∈ [Text.ofString "->", "map->"], ∃ c,
      CodePoint.isAsciiUpper c = true ∧ s = lead ++ [c] := by
  rw [constructorLeads_eq, Language.mem_mul]
  constructor
  · rintro ⟨lead, hlead, _, ⟨c, hc, rfl⟩, rfl⟩
    have hlead : lead = _ ∨ lead = _ := hlead
    exact ⟨lead, by simpa using hlead.symm, c, by rwa [← holds_capital], rfl⟩
  · rintro ⟨lead, hlead, c, hc, rfl⟩
    have hlead : lead = Text.ofString "->" ∨ lead = Text.ofString "map->" := by simpa using hlead
    exact ⟨lead, hlead.symm, [c], ⟨c, by rwa [holds_capital], rfl⟩, rfl⟩

theorem matches?_constructorPattern_iff (name : Text) :
    constructorPattern.matches? name = true ↔ ConstructorName name := by
  rw [matches?_anchored_iff rfl language?_constructorLead]
  constructor
  · rintro ⟨s, hs, rest, rfl⟩
    obtain ⟨lead, hlead, c, hc, rfl⟩ := mem_constructorLeads_iff.1 hs
    exact ⟨lead, hlead, c, rest, hc, by rw [List.append_assoc, List.singleton_append]⟩
  · rintro ⟨lead, hlead, c, rest, hc, rfl⟩
    refine ⟨lead ++ [c], mem_constructorLeads_iff.2 ⟨lead, hlead, c, hc, rfl⟩, rest, ?_⟩
    rw [List.append_assoc, List.singleton_append]

instance (name : Text) : Decidable (ConstructorName name) :=
  decidable_of_iff _ (matches?_constructorPattern_iff name)

theorem excludes_constructorPattern (v : Var) :
    excludes (some constructorPattern) v = decide (ConstructorName v.name) :=
  Bool.eq_iff_iff.2 ((matches?_constructorPattern_iff v.name).trans decide_eq_true_iff.symm)

/-! ## The names that are generated -/

namespace Definition

/-- The form defines a record or a type whose name begins with a capital letter. -/
def DefinesCapital (f : Form) : Prop :=
  ∃ line head attrs c rest attrs' body,
    f = .coll .list line (.symbol head attrs :: .symbol (c :: rest) attrs' :: body) ∧
    (localName head = "defrecord" ∨ localName head = "deftype") ∧ c.isAsciiUpper = true

variable {macros : Bool} {ns file : Text}

theorem name_of_mem_factories {isRecord : Bool} {name fields : Text} {line : Nat} {v : Var}
    (h : v ∈ factories isRecord ns file name line fields) :
    v.name = "->" ++ name ∨ v.name = "map->" ++ name := by
  unfold factories at h
  cases isRecord with
  | true =>
      simp only [if_true, List.mem_cons, List.not_mem_nil, or_false] at h
      exact h.imp (congrArg Var.name) (congrArg Var.name)
  | false =>
      simp only [Bool.false_eq_true, if_false, List.mem_singleton] at h
      exact .inl (congrArg Var.name h)

theorem constructorName_of_contribution {f : Form} (hf : DefinesCapital f) {vars : List Var}
    (h : contribution macros ns file f = .ok vars) : ∀ v ∈ vars, ConstructorName v.name := by
  obtain ⟨line, head, attrs, c, rest, attrs', body, rfl, hdefiner, hc⟩ := hf
  cases publishes_of_publics h with
  | nothing => nofun
  | factories =>
      intro v hv
      rcases name_of_mem_factories hv with hname | hname
      · rw [hname]
        exact .of_lead (.inl rfl) hc
      · rw [hname]
        exact .of_lead (.inr rfl) hc
  | single known =>
      rcases hdefiner with hdefiner | hdefiner
      · rw [hdefiner] at known
        cases known
      · rw [hdefiner] at known
        cases known

end Definition

/-! ## A run with the default exclusion -/

theorem VarFacts.located_keeps (t : FileTree) (cwd root : Path) (roots : List Path)
    (f : VarFacts) : f.Located (f.located t cwd root roots) := by
  unfold VarFacts.located
  split
  · cases pathOfFile t cwd root roots f.file with
    | none => exact ⟨f.path, rfl⟩
    | some path => exact ⟨.str path, rfl⟩
  · exact ⟨f.path, rfl⟩

theorem Namespace.located_keeps (t : FileTree) (cwd root : Path) (roots : List Path)
    (ns : Namespace) : ns.Located (ns.located t cwd root roots) :=
  ⟨_, Var.related_mapAll ns.publics fun f _ => f.located_keeps t cwd root roots, rfl⟩

namespace Run

open Dialect

theorem Genuine.fresh {o : Options} {w : Workspace} {reading : Origin × Namespace}
    (h : Genuine o w reading) : reading.2.Fresh := by
  obtain ⟨-, d, -, seen, ns, -, -, hread, hsub, hns⟩ := h
  have hfresh := fresh_of_namespaceOfText hread
  rw [hns]
  exact ⟨hfresh.attrs, fun v hv => hfresh.publics v (hsub hv)⟩

theorem ReadsFrom.fresh {o : Options} {w : Workspace} {readings : List (Origin × Namespace)}
    (h : ReadsFrom o w readings) : AllFresh (readings.map Prod.snd) := by
  intro ns hns
  obtain ⟨reading, hreading, rfl⟩ := List.mem_map.1 hns
  exact (h.genuine reading hreading).fresh

/-- A namespace for each name that is selected, with the variables that were read for the name
and are not excluded. -/
theorem extracts_of_readNamespaces {o : Options} {w w' : Workspace} {result : List Namespace}
    (h : readNamespaces o w = (.ok result, w')) :
    ∃ readings, ReadsFrom o w readings ∧
      List.Forall₂ (Extracts o (readings.map Prod.snd))
        (selectedNames o.namespaces (readings.map Prod.snd)) result := by
  obtain ⟨readings, seen, hreads, -, rfl⟩ := exists_readings_of_readNamespaces h
  refine ⟨readings, hreads, extracts_of_located hreads.fresh ?_⟩
  rw [List.forall₂_map_right_iff, List.forall₂_same]
  exact fun ns _ => Namespace.located_keeps _ _ _ _ ns

theorem kept_of_extracts {o : Options} {records : List Namespace} {name : Option Text}
    {ns : Namespace} (hdefault : o.excludeVars = some constructorPattern)
    (h : Extracts o records name ns) :
    List.Forall₂ Var.Kept
      ((varsNamed records name).filter fun v => ¬ ConstructorName v.name) ns.publics := by
  have hpublics := h.publics
  simp only [hdefault, excludes_constructorPattern, ← decide_not] at hpublics
  exact hpublics

/-- The default exclusion is of the names of generated constructors.  Where it holds, a
namespace is left with just the variables whose names are not of this shape, so that no
constructor of a record or a type with a capital is left. -/
theorem default_exclusion_removes_constructors :
    Regex.compilePosix defaultExclusion = .ok constructorPattern ∧
    (∀ name, constructorPattern.matches? name = true ↔ ConstructorName name) ∧
    (∀ root commit, ({ root, commit } : Options).excludeVars = some constructorPattern) ∧
    ∀ (o : Options) (w w' : Workspace) (result : List Namespace),
      o.excludeVars = some constructorPattern →
      readNamespaces o w = (.ok result, w') →
      (∃ readings, ReadsFrom o w readings ∧
        List.Forall₂ (fun name ns => ns.name = name ∧
            List.Forall₂ Var.Kept
              ((varsNamed (readings.map Prod.snd) name).filter fun v => ¬ ConstructorName v.name)
              ns.publics)
          (selectedNames o.namespaces (readings.map Prod.snd)) result) ∧
      ∀ (macros : Bool) (name file : Text) (f : Form) (vars : List Var),
        Definition.DefinesCapital f → Definition.contribution macros name file f = .ok vars →
        ∀ v ∈ vars, ∀ ns ∈ result, ∀ left ∈ ns.publics, left.name ≠ v.name := by
  refine ⟨compilePosix_defaultExclusion, matches?_constructorPattern_iff, fun _ _ => ?_, ?_⟩
  · simp only [compilePosix_defaultExclusion, Except.toOption]
  intro o w w' result hdefault h
  obtain ⟨readings, hreads, hextracts⟩ := extracts_of_readNamespaces h
  refine ⟨⟨readings, hreads, hextracts.imp fun name ns hns =>
    ⟨hns.named, kept_of_extracts hdefault hns⟩⟩, ?_⟩
  intro macros name file f vars hf hvars v hv ns hns left hleft hsame
  obtain ⟨_, -, hname⟩ := exists_of_mem_right hextracts hns
  obtain ⟨old, hold, hkept⟩ := exists_of_mem_right (kept_of_extracts hdefault hname) hleft
  have hnot : ¬ ConstructorName old.name := by simpa using (List.mem_filter.1 hold).2
  rw [← hkept.name, hsame] at hnot
  exact hnot (Definition.constructorName_of_contribution hf hvars v hv)

def shapesSource : Text := "(ns a)(defrecord Point [x])(deftype low [y])(def b->C 1)(defn ->Q[])"

def pointForm : Form :=
  .coll .list 1 [.symbol "defrecord" [], .symbol "Point" [], .coll .vector 1 [.symbol "x" []]]

/-- A small letter, and an arrow that does not come first, are no constructor of this shape. -/
theorem default_exclusion_removes_constructors_shapes :
    ∃ result w', readNamespaces singleOptions (singleSource shapesSource) = (.ok result, w') ∧
      result.map (fun ns => (ns.name, ns.publics.map Var.name)) =
        [(some (Text.ofString "a"), [Text.ofString "->low", "b->C"])] ∧
      (∃ readings, ReadsFrom singleOptions (singleSource shapesSource) readings ∧
        List.Forall₂ (fun name ns => ns.name = name ∧
            List.Forall₂ Var.Kept
              ((varsNamed (readings.map Prod.snd) name).filter fun v => ¬ ConstructorName v.name)
              ns.publics)
          (selectedNames singleOptions.namespaces (readings.map Prod.snd)) result) ∧
      ∀ ns ∈ result, ∀ left ∈ ns.publics, left.name ≠ "map->Point" := by
  have hnames : (readNamespaces singleOptions (singleSource shapesSource)).1.toOption.map
      (List.map fun ns => (ns.name, ns.publics.map Var.name)) =
        some [(some (Text.ofString "a"), [Text.ofString "->low", "b->C"])] := by decide +kernel
  match h : readNamespaces singleOptions (singleSource shapesSource) with
  | (.error e, w') =>
      rw [h] at hnames
      cases hnames
  | (.ok result, w') =>
      rw [h] at hnames
      obtain ⟨-, -, hdefault, hrun⟩ := default_exclusion_removes_constructors
      obtain ⟨hreadings, hnone⟩ := hrun singleOptions (singleSource shapesSource) w' result
        (hdefault singleOptions.root singleOptions.commit) h
      have hpoint : Definition.DefinesCapital pointForm :=
        ⟨1, "defrecord", [], 'P', "oint", [], _, rfl, .inl (by decide), by decide⟩
      have hvars : Definition.contribution false "a" "a.clj" pointForm =
          .ok (Definition.factories true "a" "a.clj" "Point" 1 "[x]") := rfl
      refine ⟨result, w', rfl, Option.some.inj hnames, hreadings, fun ns hns left hleft => ?_⟩
      exact hnone false "a" "a.clj" pointForm _ hpoint hvars _ (List.mem_of_getElem? (i := 1) rfl)
        ns hns left hleft

end Run

end Docsmith
