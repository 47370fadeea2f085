import Docsmith.Proofs.Atoms
import Docsmith.Proofs.Grammar

/-!
# Reading accepts the grammar

The reader works token by token on a stack.  Tokens that derive forms as an item deliver
these forms to whatever is open, so every derivation can be read.  Conversely the tokens
read so far are always cut, frame by frame, into complete derivations; at the end nothing
is open, and one derivation is left.
-/

namespace Docsmith

namespace Grammar

variable {features : List Text}

/-! ## Conditionals -/

theorem enabled_iff (name : Text) :
    (features.contains name || decide (name = "default")) = true ↔ Enabled features name := by
  simp [Enabled]

/-- The forms that a branch gives, in a conditional or in a splice. -/
def Takes (splice : Bool) (choice : Option Form) (gs : List Form) : Prop :=
  if splice then
    (choice = none ∧ gs = []) ∨
      ∃ shape start, choice = some (.coll shape start gs) ∧ (shape = .list ∨ shape = .vector)
  else gs = choice.toList

theorem selectBranch_enabled {name : Text} (enabled : Enabled features name) (splice : Bool)
    (line : Nat) (f : Form) (rest : List (Form × Form)) (gs : List Form) :
    Form.selectBranch features splice line ((.keyword name, f) :: rest) = .ok gs ↔
      Takes splice (some f) gs := by
  have hon := (enabled_iff name).2 enabled
  cases splice with
  | false =>
      unfold Form.selectBranch
      simp only [hon, if_true, Bool.false_eq_true, if_false, Except.ok.injEq]
      simp [Takes, eq_comm]
  | true =>
      cases f with
      | coll shape start items =>
          cases shape with
          | list | vector =>
              simp only [Form.selectBranch, hon, if_true, Except.ok.injEq, Takes]
              constructor
              · rintro rfl
                exact .inr ⟨_, _, rfl, by simp⟩
              · rintro (⟨h, -⟩ | ⟨shape, start, h, -⟩) <;> cases h
                rfl
          | set | map =>
              simp only [Form.selectBranch, hon, if_true, reduceCtorEq, false_iff, Takes]
              rintro (⟨h, -⟩ | ⟨shape, start, h, sequence⟩) <;> cases h
              simp at sequence
      | _ =>
          simp only [Form.selectBranch, hon, if_true, reduceCtorEq, false_iff, Takes]
          rintro (⟨h, -⟩ | ⟨shape, start, h, -⟩) <;> cases h

theorem selectBranch_disabled {name : Text} (disabled : ¬Enabled features name) (splice : Bool)
    (line : Nat) (f : Form) (rest : List (Form × Form)) :
    Form.selectBranch features splice line ((.keyword name, f) :: rest) =
      Form.selectBranch features splice line rest := by
  have hoff := Bool.eq_false_iff.2 (mt (enabled_iff name).1 disabled)
  conv => lhs; unfold Form.selectBranch
  simp only [hoff, Bool.false_eq_true, if_false]

theorem selects_keyword_iff {name : Text} {f : Form} {rest : List Form}
    {choice : Option Form} :
    Selects features (.keyword name :: f :: rest) choice ↔
      (Enabled features name ∧ choice = some f) ∨
        (¬Enabled features name ∧ Selects features rest choice) := by
  constructor
  · intro h
    cases h with
    | here enabled => exact .inl ⟨enabled, rfl⟩
    | later disabled tail => exact .inr ⟨disabled, tail⟩
  · rintro (⟨enabled, rfl⟩ | ⟨disabled, tail⟩)
    · exact .here enabled
    · exact .later disabled tail

theorem selectBranch_eq_ok_iff (splice : Bool) (line : Nat) {fs : List Form}
    (even : Even fs.length) (gs : List Form) :
    Form.selectBranch features splice line (Form.pairs fs) = .ok gs ↔
      ∃ choice, Selects features fs choice ∧ Takes splice choice gs := by
  fun_induction Form.pairs fs with
  | case1 key f rest ih =>
      have hrest : Even rest.length := by
        simpa [Nat.even_add_one] using even
      cases key with
      | keyword name =>
          simp only [selects_keyword_iff]
          by_cases he : Enabled features name
          · rw [selectBranch_enabled he]
            simp [he]
          · rw [selectBranch_disabled he, ih hrest]
            simp [he]
      | _ =>
          simp only [Form.selectBranch, reduceCtorEq, false_iff]
          rintro ⟨choice, hs, -⟩
          cases hs
  | case2 fs hpairs =>
      have hnil : fs = [] := by
        rcases fs with _ | ⟨key, _ | ⟨f, rest⟩⟩
        · rfl
        · simp at even
        · exact (hpairs key f rest rfl).elim
      subst hnil
      simp only [Form.selectBranch, Except.ok.injEq]
      constructor
      · rintro rfl
        exact ⟨none, .nothing, by cases splice <;> simp [Takes]⟩
      · rintro ⟨choice, hs, ht⟩
        cases hs
        cases splice <;> simp_all [Takes]

theorem conditional_eq_ok_iff (splice : Bool) (line : Nat) (fs gs : List Form) :
    (if fs.length % 2 = 0 then Form.selectBranch features splice line (Form.pairs fs)
      else .error (.oddConditional line)) = .ok gs ↔
      Even fs.length ∧ ∃ choice, Selects features fs choice ∧ Takes splice choice gs := by
  by_cases even : Even fs.length
  · rw [if_pos (Nat.even_iff.1 even), selectBranch_eq_ok_iff splice line even]
    simp [even]
  · rw [if_neg (mt Nat.even_iff.2 even)]
    simp [even]

theorem ofCollection_eq_ok_iff (o : Opener) (line : Nat) (fs gs : List Form) :
    Form.ofCollection features o line fs = .ok gs ↔ Closes features o line fs gs := by
  constructor
  · intro h
    cases o with
    | conditional =>
        obtain ⟨even, choice, selects, takes⟩ := (conditional_eq_ok_iff false line fs gs).1 h
        obtain rfl : gs = choice.toList := by simpa [Takes] using takes
        exact .conditional line even selects
    | splice =>
        obtain ⟨even, choice, selects, takes⟩ := (conditional_eq_ok_iff true line fs gs).1 h
        simp only [Takes, if_true] at takes
        rcases takes with ⟨rfl, rfl⟩ | ⟨shape, start, rfl, sequence⟩
        · exact .spliceNothing line even selects
        · exact .splice line even selects sequence
    | brace =>
        simp only [Form.ofCollection] at h
        split at h
        case isTrue even =>
          cases h
          exact .coll line rfl fun _ => Nat.even_iff.2 even
        case isFalse => cases h
    | _ =>
        cases h
        exact .coll line rfl nofun
  · intro h
    cases h with
    | @coll _ shape _ _ opens even =>
        cases o <;> cases opens <;> simp [Form.ofCollection]
        exact Nat.even_iff.1 (even rfl)
    | conditional _ even selects =>
        exact (conditional_eq_ok_iff false line fs _).2 ⟨even, _, selects, by simp [Takes]⟩
    | splice _ even selects sequence =>
        exact (conditional_eq_ok_iff true line fs gs).2
          ⟨even, _, selects, .inr ⟨_, _, rfl, sequence⟩⟩
    | spliceNothing _ even selects =>
        exact (conditional_eq_ok_iff true line fs []).2 ⟨even, _, selects, .inl ⟨rfl, rfl⟩⟩

end Grammar

namespace Reader

open Grammar

variable {features : List Text}

/-! ## Running and delivering -/

@[simp] theorem deliver_nil (top : List Form) (stack : List Frame) :
    deliver top stack [] = .ok ⟨top, stack⟩ := by
  cases stack with
  | nil => simp [deliver]
  | cons frame stack => cases frame <;> simp [deliver]

theorem deliver_await_cons (top : List Form) (wait : Wait) (line : Nat) (stack : List Frame)
    (f : Form) (fs : List Form) :
    deliver top (.await wait line :: stack) (f :: fs) =
      deliver top (.await wait line :: stack) [f] := by
  simp [deliver]

theorem step_of_denotes {l : Lexeme} {f : Form} (h : Denotes l f) (s : State) (line : Nat) :
    step features s ⟨l, line⟩ = deliver s.forms s.stack [f] := by
  cases h with
  | str | regex | char => rfl
  | special name => simp [step, Text.ofString, Text.after?]
  | @atom text _ plain reads =>
      have hsign : Text.after? "##" text = none := by
        cases text with
        | nil => rfl
        | cons c r =>
            have hc : CodePoint.ofChar '#' ≠ c := by simpa [eq_comm] using plain
            simp [Text.ofString, Text.after?, hc]
      simp [step, hsign, plain, reads, bind, Except.bind]

/-! ## What is derived can be read -/

def Gathers : List Frame → Prop
  | .await .. :: _ => False
  | _ => True

def Performs (features : List Text) : Phrase → List Token → List Form → Prop
  | .item, ts, fs => ∀ top stack, run features ⟨top, stack⟩ ts = deliver top stack fs
  | .items, ts, fs => ∀ top stack, fs = [] ∨ Gathers stack →
      run features ⟨top, stack⟩ ts = deliver top stack fs
  | .one, ts, fs => ∀ top wait line stack,
      run features ⟨top, .await wait line :: stack⟩ ts =
        deliver top (.await wait line :: stack) fs

theorem performs_cons {ts us : List Token} {fs gs : List Form}
    (ht : Performs features .item ts fs) (hu : Performs features .items us gs) :
    Performs features .items (ts ++ us) (fs ++ gs) := by
  intro top stack hready
  rw [run_append, ht top stack]
  rcases hready with hempty | hgathers
  · obtain ⟨rfl, rfl⟩ := List.append_eq_nil_iff.1 hempty
    simpa [bind, Except.bind] using hu top stack (.inl rfl)
  · cases stack with
    | nil =>
        simpa [deliver, bind, Except.bind] using hu (fs.reverse ++ top) [] (.inr trivial)
    | cons frame stack =>
        cases frame with
        | await => exact hgathers.elim
        | gather o line items =>
            simpa [deliver, bind, Except.bind] using
              hu top (.gather o line (fs.reverse ++ items) :: stack) (.inr trivial)

theorem performs_one {ts us : List Token} {f : Form} {fs : List Form}
    (ht : Performs features .items ts []) (hu : Performs features .item us (f :: fs)) :
    Performs features .one (ts ++ us) [f] := by
  intro top wait line stack
  rw [run_append, ht top _ (.inl rfl), deliver_nil,
    ← deliver_await_cons top wait line stack f fs]
  exact hu top _

theorem performs_delimited {ts : List Token} {fs gs : List Form} {o : Opener} {line : Nat}
    (last : Nat) (closes : Closes features o line fs gs) (h : Performs features .items ts fs) :
    Performs features .item (⟨.opener o, line⟩ :: (ts ++ [⟨.closer o.closer, last⟩])) gs := by
  intro top stack
  have hbody : run features ⟨top, .gather o line [] :: stack⟩ ts =
      .ok ⟨top, .gather o line fs.reverse :: stack⟩ := by
    simpa [deliver] using h top (.gather o line [] :: stack) (.inr trivial)
  have hclose : step features ⟨top, .gather o line fs.reverse :: stack⟩
      ⟨.closer o.closer, last⟩ = deliver top stack gs := by
    simp [step, close, (ofCollection_eq_ok_iff o line fs gs).2 closes, bind, Except.bind]
  rw [run_cons]
  change run features ⟨top, .gather o line [] :: stack⟩ (ts ++ [_]) = _
  rw [run_append, hbody]
  change run features ⟨top, .gather o line fs.reverse :: stack⟩ [_] = _
  rw [run_cons, hclose]
  cases deliver top stack gs <;> rfl

/-- No integer is above the limit: the digits of a decimal literal are counted as they
stand, those of a hexadecimal one by the number that it spells. -/
def withinLimit : Lexeme → Bool
  | .atom text =>
      (Form.decimalLiteral? text).all (fun e => e.2.length ≤ Form.maxIntegerDigits) &&
        (Form.hexLiteral? text).all fun e =>
          Form.integerFits (Form.signedInt e.1 (Text.foldDigits 16 e.2))
  | _ => true

theorem inherited_labelable : Inherited fun f => f.labelable = true where
  name q := by cases q <;> rfl
  coll line _ h := (Form.labelable_coll_iff _ _ _).2 h
  item h := (Form.labelable_coll_iff _ _ _).1 h
  annotate hm hf := Form.labelable_annotate hm hf

theorem labelable_of_denotes {l : Lexeme} {f : Form} (fits : withinLimit l = true)
    (h : Denotes l f) : f.labelable = true := by
  cases h with
  | str | regex | char | special => rfl
  | atom _ reads =>
      cases Form.spells_of_ofAtom reads with
      | decimal literal short =>
          rw [Form.labelable, Form.integerFits_iff, Form.natAbs_signedInt]
          have hdigits := Text.foldDigits_lt (Form.lt_of_mem_decimalLiteral? literal)
          exact Nat.lt_of_lt_of_le hdigits (Nat.pow_le_pow_right (by decide) short)
      | hex literal =>
          simp only [withinLimit, literal, Bool.and_eq_true, Option.all_some] at fits
          exact fits.2
      | nil | bool | keyword | float | name => rfl

theorem labelable_of_derives {p : Phrase} {ts : List Token} {fs : List Form}
    (h : Derives features p ts fs) (fits : ∀ t ∈ ts, withinLimit t.lexeme = true) :
    ∀ f ∈ fs, f.labelable = true :=
  h.forall_of_inherited inherited_labelable fun t ht _ => labelable_of_denotes (fits t ht)

theorem performs_annotated {ts us : List Token} {m f : Form} (line : Nat)
    (hattrs : m.toAttrs = .ok m.entries) (ht : Performs features .one ts [m])
    (hu : Performs features .one us [f]) :
    Performs features .item (⟨.hat, line⟩ :: (ts ++ us)) [f.annotate m.entries] := by
  intro top stack
  have hfront : run features ⟨top, .await .attrs line :: stack⟩ ts =
      .ok ⟨top, .await (.target m.entries) line :: stack⟩ := by
    rw [ht top .attrs line stack]
    simp [deliver, hattrs, bind, Except.bind, pure, Except.pure]
  rw [run_cons]
  change run features ⟨top, .await .attrs line :: stack⟩ (ts ++ us) = _
  rw [run_append, hfront]
  exact hu top (.target m.entries) line stack

theorem performs_of_derives {p : Phrase} {ts : List Token} {fs : List Form}
    (h : Derives features p ts fs) (fits : ∀ t ∈ ts, withinLimit t.lexeme = true) :
    Performs features p ts fs := by
  induction h with
  | leaf line denotes =>
      intro top stack
      rw [run_cons, step_of_denotes denotes]
      cases deliver top stack _ <;> rfl
  | delimited last closes _ ih =>
      exact performs_delimited last closes (ih fun t ht => fits t (by simp [ht]))
  | discard line _ ih =>
      intro top stack
      exact ih (fun t ht => fits t (by simp [ht])) top .discard line stack
  | quote q line _ ih =>
      intro top stack
      exact ih (fun t ht => fits t (by simp [ht])) top (.quote q) line stack
  | @annotated ts _ _ _ line front _ ihm ihf =>
      -- Only here must integers fit: entries are named by the labels of their keys.
      have hfront : ∀ t ∈ ts, withinLimit t.lexeme = true := fun t ht => fits t (by simp [ht])
      have hm := labelable_of_derives front hfront _ (List.mem_singleton.2 rfl)
      exact performs_annotated line (Form.toAttrs_of_labelable hm) (ihm hfront)
        (ihf fun t ht => fits t (by simp [ht]))
  | tagged line sign single _ ih =>
      intro top stack
      rw [run_cons]
      simp only [step, single, sign, if_true]
      exact ih (fun t ht => fits t (by simp [ht])) top .tag line stack
  | nil =>
      intro top stack _
      rw [deliver_nil]
      rfl
  | cons _ _ iht ihu =>
      exact performs_cons (iht fun t ht => fits t (by simp [ht]))
        (ihu fun t ht => fits t (by simp [ht]))
  | one _ _ iht ihu =>
      exact performs_one (iht fun t ht => fits t (by simp [ht]))
        (ihu fun t ht => fits t (by simp [ht]))

theorem readTokens_of_derives {ts : List Token} {fs : List Form}
    (h : Derives features .items ts fs) (fits : ∀ t ∈ ts, withinLimit t.lexeme = true) :
    readTokens features ts = .ok fs := by
  have hrun := performs_of_derives h fits [] [] (.inr trivial)
  rw [readTokens_eq_ok_iff, State.start, hrun]
  simp [deliver]

/-! ## What is read is derived -/

inductive Marks (features : List Text) : Wait → Nat → List Token → Prop
  | discard (line : Nat) : Marks features .discard line [⟨.discard, line⟩]
  | tag {text : Text} (line : Nat) (sign : text.head? = some (CodePoint.ofChar '#'))
      (single : Text.after? "##" text = none) : Marks features .tag line [⟨.atom text, line⟩]
  | quote (q : QuoteMark) (line : Nat) : Marks features (.quote q) line [⟨.quote q, line⟩]
  | attrs (line : Nat) : Marks features .attrs line [⟨.hat, line⟩]
  | target {ts : List Token} {m : Form} (line : Nat) (front : Derives features .one ts [m]) :
      Marks features (.target m.entries) line (⟨.hat, line⟩ :: ts)

/-- The tokens read so far, cut into the derivations of the forms at hand: the top-level
forms, then for each frame its delimiter or mark and what followed it. -/
inductive Consumed (features : List Text) : List Token → List Form → List Frame → Prop
  | top {ts : List Token} {top : List Form} (h : Derives features .items ts top.reverse) :
      Consumed features ts top []
  | gather {ts us : List Token} {top : List Form} {stack : List Frame} {items : List Form}
      (o : Opener) (line : Nat) (outer : Consumed features ts top stack)
      (inner : Derives features .items us items.reverse) :
      Consumed features (ts ++ ⟨.opener o, line⟩ :: us) top (.gather o line items :: stack)
  | await {ts us vs : List Token} {top : List Form} {stack : List Frame} {wait : Wait}
      {line : Nat} (outer : Consumed features ts top stack) (mark : Marks features wait line us)
      (skipped : Derives features .items vs []) :
      Consumed features (ts ++ (us ++ vs)) top (.await wait line :: stack)

theorem Consumed.of_eq {ts us : List Token} {top : List Form} {stack : List Frame}
    (h : Consumed features ts top stack) (heq : ts = us) : Consumed features us top stack :=
  heq ▸ h

theorem Consumed.deliver {ts us : List Token} {top : List Form} {stack : List Frame}
    {fs : List Form} {s : State} (h : Consumed features ts top stack)
    (hu : Derives features .item us fs) (hs : Reader.deliver top stack fs = .ok s) :
    Consumed features (ts ++ us) s.forms s.stack := by
  induction h generalizing us fs s with
  | @top ts top h =>
      cases hs
      exact .top (by simpa using h.snoc hu)
  | @gather ts vs top stack items o line outer inner _ =>
      cases hs
      rw [List.append_assoc, List.cons_append]
      exact .gather o line outer (by simpa using inner.snoc hu)
  | @await ts us' vs top stack wait line outer mark skipped ih =>
      cases fs with
      | nil =>
          cases hs
          rw [List.append_assoc, List.append_assoc]
          exact .await outer mark (by simpa using skipped.snoc hu)
      | cons f fs =>
          have one : Derives features .one (vs ++ us) [f] := .one skipped hu
          rw [List.append_assoc, List.append_assoc]
          cases mark with
          | discard => exact ih (.discard line one) hs
          | tag _ sign single => exact ih (.tagged line sign single one) hs
          | quote q => exact ih (.quote q line one) hs
          | attrs =>
              obtain ⟨attrs, hm, hs⟩ := exists_of_bind_eq_ok hs
              cases hs
              rw [Form.eq_entries_of_toAttrs hm]
              exact (Consumed.await outer (.target line one) .nil).of_eq (by simp)
          | @target ts' m _ front =>
              exact (ih (.annotated line front one) hs).of_eq (by simp)

theorem Consumed.mark {ts : List Token} {t : Token} {s : State} {wait : Wait}
    (h : Consumed features ts s.forms s.stack) (hm : Marks features wait t.line [t]) :
    Consumed features (ts ++ [t]) s.forms (.await wait t.line :: s.stack) := by
  simpa using Consumed.await h hm .nil

theorem Consumed.close {ts : List Token} {s u : State} {c : Closer} {line : Nat}
    (h : Consumed features ts s.forms s.stack)
    (hs : Reader.close features s c line = .ok u) :
    Consumed features (ts ++ [⟨.closer c, line⟩]) u.forms u.stack := by
  obtain ⟨top, stack⟩ := s
  cases h with
  | top => cases hs
  | await => cases hs
  | @gather ts us _ stack items o start outer inner =>
      simp only [Reader.close] at hs
      split at hs
      case isTrue hc =>
        subst hc
        obtain ⟨gs, hg, hs⟩ := exists_of_bind_eq_ok hs
        have closes := (ofCollection_eq_ok_iff o start items.reverse gs).1 hg
        exact (outer.deliver (.delimited line closes inner) hs).of_eq (by simp)
      case isFalse => cases hs

theorem Consumed.step {ts : List Token} {t : Token} {s u : State}
    (h : Consumed features ts s.forms s.stack) (hs : Reader.step features s t = .ok u) :
    Consumed features (ts ++ [t]) u.forms u.stack := by
  obtain ⟨l, line⟩ := t
  cases l with
  | opener o =>
      cases hs
      exact .gather o line h .nil
  | closer c => exact h.close hs
  | str body => exact h.deliver (.leaf line (.str body)) hs
  | regex body => exact h.deliver (.leaf line (.regex body)) hs
  | char name => exact h.deliver (.leaf line (.char name)) hs
  | discard =>
      cases hs
      exact h.mark (.discard line)
  | hat =>
      cases hs
      exact h.mark (.attrs line)
  | quote q =>
      cases hs
      exact h.mark (.quote q line)
  | atom text =>
      simp only [Reader.step] at hs
      split at hs
      case h_1 name hname =>
        rw [Text.eq_append_of_after? hname]
        exact h.deliver (.leaf line (.special name)) hs
      case h_2 single =>
        split at hs
        case isTrue sign =>
          cases hs
          exact h.mark (.tag line sign single)
        case isFalse plain =>
          obtain ⟨f, hf, hs⟩ := exists_of_bind_eq_ok hs
          exact h.deliver (.leaf line (.atom plain hf)) hs

theorem Consumed.run {ts us : List Token} {s u : State}
    (h : Consumed features ts s.forms s.stack) (hs : Reader.run features s us = .ok u) :
    Consumed features (ts ++ us) u.forms u.stack := by
  induction us generalizing ts s with
  | nil =>
      cases hs
      simpa using h
  | cons t us ih =>
      rw [run_cons] at hs
      obtain ⟨v, ht, hs⟩ := exists_of_bind_eq_ok hs
      exact (ih (h.step ht) hs).of_eq (by simp)

theorem derives_of_readTokens {ts : List Token} {fs : List Form}
    (h : readTokens features ts = .ok fs) : Derives features .items ts fs := by
  have hrun := readTokens_eq_ok_iff.1 h
  have hconsumed : Consumed features ([] ++ ts) fs.reverse [] := Consumed.run (.top .nil) hrun
  cases hconsumed with
  | top hitems => rwa [List.reverse_reverse] at hitems

/-- Reading accepts exactly what the grammar derives, and yields the forms that are
derived.  As no integer is above the limit, every atom is read. -/
theorem readTokens_accepts_grammar (features : List Text) (ts : List Token)
    (fits : ∀ t ∈ ts, withinLimit t.lexeme = true) :
    (∀ fs, readTokens features ts = .ok fs ↔ Derives features .items ts fs) ∧
      ∀ t ∈ ts, ∀ text, t.lexeme = .atom text → ∃ f, Form.ofAtom text = .ok f := by
  constructor
  · intro fs
    exact ⟨derives_of_readTokens, fun h => readTokens_of_derives h fits⟩
  · intro t ht text htext
    have hlimit := fits t ht
    rw [htext, withinLimit, Bool.and_eq_true] at hlimit
    refine Form.exists_ofAtom fun negative digits literal => ?_
    simpa [literal] using hlimit.1

/-- An annotated symbol after a discarded item, and a splice that is chosen. -/
theorem derives_annotated_and_spliced :
    Derives [Text.ofString "clj"] .items
      [⟨.discard, 1⟩, ⟨.atom "12", 1⟩, ⟨.hat, 1⟩, ⟨.atom ":a", 1⟩, ⟨.atom "x", 2⟩,
       ⟨.opener .splice, 3⟩, ⟨.atom ":clj", 3⟩, ⟨.opener .bracket, 3⟩, ⟨.quote .var, 3⟩,
       ⟨.atom "y", 3⟩, ⟨.str "z", 3⟩, ⟨.closer .bracket, 3⟩, ⟨.closer .paren, 4⟩]
      [.symbol "x" [("a", .bool true)], .coll .list 3 [Form.ofName "var", Form.ofName "y"],
       .str "z"] :=
  ((readTokens_accepts_grammar _ _ (by decide)).1 _).1 rfl

end Reader

end Docsmith
