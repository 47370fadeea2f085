import Docsmith.Form.Printer
import Docsmith.Proofs.Context
import Docsmith.Proofs.Locality

/-!
# Features matter where they are named

A conditional asks of its keywords whether they are features, and all of these keywords stand
in the text.  So feature sets that agree on the keywords of a text read it alike: they yield the
same forms, with the same lines and metadata, or the same failure.
-/

namespace Docsmith

def Lexeme.keyword? : Lexeme → Option Text
  | .atom text =>
      if text.head? = some (CodePoint.ofChar ':') then some (text.dropWhile (· = ':')) else none
  | _ => none

def Text.keywords (t : Text) : List Text :=
  (Token.scan 1 t).1.filterMap fun token => token.lexeme.keyword?

/-! ## Keywords of forms -/

namespace Form

open Grammar

variable {names : List Text}

/-- Every keyword in the form has one of the names.  Metadata do not count, for they are never
taken out of a symbol again. -/
def KeywordsIn (names : List Text) (f : Form) : Prop :=
  ∀ name, Part (.keyword name) f → name ∈ names

theorem keywordsIn_coll_iff {shape : Shape} {line : Nat} {items : List Form} :
    KeywordsIn names (.coll shape line items) ↔ ∀ f ∈ items, KeywordsIn names f := by
  constructor
  · exact fun h f hf name part => h name (.item hf part)
  · intro h name part
    cases part with
    | item hf part => exact h _ hf name part

theorem keywordsIn_symbol (name : Text) (attrs : Attrs) : KeywordsIn names (.symbol name attrs) :=
  nofun

theorem KeywordsIn.annotate {f : Form} (h : KeywordsIn names f) (attrs : Attrs) :
    KeywordsIn names (f.annotate attrs) := by
  cases f with
  | symbol name own => exact keywordsIn_symbol name _
  | _ => exact h

theorem inherited_keywordsIn : Inherited (KeywordsIn names) where
  name _ := keywordsIn_symbol _ _
  coll _ _ h := keywordsIn_coll_iff.2 h
  item h := keywordsIn_coll_iff.1 h
  annotate _ hf := hf.annotate _

theorem keywordsIn_of_denotes {l : Lexeme} {f : Form} (denotes : Denotes l f)
    (h : ∀ name, l.keyword? = some name → name ∈ names) : KeywordsIn names f := by
  cases denotes with
  | str | regex | char => exact nofun
  | special name => exact keywordsIn_symbol name []
  | atom _ reads =>
      cases spells_of_ofAtom reads with
      | keyword colon =>
          intro name part
          cases part
          exact h _ (by rw [Lexeme.keyword?, if_pos colon])
      | _ => exact nofun

/-! ## Conditionals -/

variable {features features' : List Text}

theorem selectBranch_congr (agree : ∀ name ∈ names, name ∈ features ↔ name ∈ features')
    {ps : List (Form × Form)} (hps : ∀ e ∈ ps, e.1.KeywordsIn names) (splice : Bool)
    (line : Nat) : selectBranch features splice line ps = selectBranch features' splice line ps := by
  induction ps with
  | nil => rfl
  | cons e ps ih =>
      obtain ⟨he, hrest⟩ := List.forall_mem_cons.1 hps
      obtain ⟨feature, form⟩ := e
      cases feature with
      | keyword name =>
          have hsame : features.contains name = features'.contains name := by
            rw [List.contains_eq_mem, List.contains_eq_mem, decide_eq_decide]
            exact agree name (he name .self)
          rw [selectBranch.eq_def, selectBranch.eq_def features']
          simp only [hsame, ih hrest]
      | _ => rfl

theorem ofCollection_congr (agree : ∀ name ∈ names, name ∈ features ↔ name ∈ features')
    {items : List Form} (hitems : ∀ f ∈ items, f.KeywordsIn names) (o : Opener) (line : Nat) :
    ofCollection features o line items = ofCollection features' o line items := by
  have hpairs : ∀ e ∈ pairs items, e.1.KeywordsIn names := fun e he =>
    hitems _ (mem_of_mem_pairs he).1
  cases o with
  | conditional | splice => simp only [ofCollection, selectBranch_congr agree hpairs]
  | _ => rfl

end Form

/-! ## The reader -/

namespace Reader

open Grammar

variable {features features' names : List Text}

def Frame.KeywordsIn (names : List Text) : Frame → Prop
  | .gather _ _ items => ∀ f ∈ items, f.KeywordsIn names
  | .await .. => True

theorem kept_keywordsIn : Kept (Form.KeywordsIn names) (Frame.KeywordsIn names) where
  gather hitems hfs := by
    intro f hf
    rcases List.mem_append.1 hf with hf | hf
    · exact hfs f (List.mem_reverse.1 hf)
    · exact hitems f hf
  target _ _ := trivial
  quote q line _ hf :=
    Form.keywordsIn_coll_iff.2 (List.forall_mem_cons.2
      ⟨Form.keywordsIn_symbol _ _, List.forall_mem_singleton.2 hf⟩)
  annotate attrs _ hf := hf.annotate attrs

theorem close_congr (agree : ∀ name ∈ names, name ∈ features ↔ name ∈ features') {s : State}
    (hs : ∀ frame ∈ s.stack, frame.KeywordsIn names) (c : Closer) (line : Nat) :
    close features s c line = close features' s c line := by
  obtain ⟨top, stack⟩ := s
  cases stack with
  | nil => rfl
  | cons frame stack =>
      cases frame with
      | await => rfl
      | gather o start items =>
          have hitems : ∀ f ∈ items.reverse, f.KeywordsIn names := fun f hf =>
            hs _ List.mem_cons_self f (List.mem_reverse.1 hf)
          simp only [close, Form.ofCollection_congr agree hitems]

theorem step_congr (agree : ∀ name ∈ names, name ∈ features ↔ name ∈ features') {s : State}
    (hs : ∀ frame ∈ s.stack, frame.KeywordsIn names) (t : Token) :
    step features s t = step features' s t := by
  cases does t with
  | opens _ _ step | marks _ _ step | stands _ _ step => rw [step, step]
  | closes c _ step => rw [step, step, close_congr agree hs]

theorem keywordsIn_of_close {s u : State} {c : Closer} {line : Nat}
    (hs : ∀ frame ∈ s.stack, frame.KeywordsIn names) (h : close features s c line = .ok u) :
    ∀ frame ∈ u.stack, frame.KeywordsIn names := by
  obtain ⟨top, stack⟩ := s
  cases stack with
  | nil => cases h
  | cons frame stack =>
      obtain ⟨hframe, hrest⟩ := List.forall_mem_cons.1 hs
      cases frame with
      | await => cases h
      | gather o start items =>
          simp only [close] at h
          split at h
          · obtain ⟨gs, hg, h⟩ := exists_of_bind_eq_ok h
            have closes := (ofCollection_eq_ok_iff o start items.reverse gs).1 hg
            refine kept_keywordsIn.deliver hrest ?_ h
            exact closes.forall_of_inherited Form.inherited_keywordsIn fun f hf =>
              hframe f (List.mem_reverse.1 hf)
          · cases h

theorem keywordsIn_of_step {s u : State} {t : Token}
    (hs : ∀ frame ∈ s.stack, frame.KeywordsIn names)
    (ht : ∀ name, t.lexeme.keyword? = some name → name ∈ names)
    (h : step features s t = .ok u) : ∀ frame ∈ u.stack, frame.KeywordsIn names := by
  obtain ⟨l, line⟩ := t
  have hdelivered {f : Form} (denotes : Denotes l f)
      (h : deliver s.forms s.stack [f] = .ok u) : ∀ frame ∈ u.stack, frame.KeywordsIn names := by
    have hf := Form.keywordsIn_of_denotes denotes ht
    exact kept_keywordsIn.deliver hs (List.forall_mem_singleton.2 hf) h
  have hmarked (wait : Wait) : ∀ frame ∈ (push s (.await wait line)).stack,
      frame.KeywordsIn names := List.forall_mem_cons.2 ⟨trivial, hs⟩
  cases l with
  | opener o =>
      cases h
      exact List.forall_mem_cons.2 ⟨nofun, hs⟩
  | closer c => exact keywordsIn_of_close hs h
  | str body => exact hdelivered (.str body) h
  | regex body => exact hdelivered (.regex body) h
  | char name => exact hdelivered (.char name) h
  | discard =>
      cases h
      exact hmarked _
  | hat =>
      cases h
      exact hmarked _
  | quote q =>
      cases h
      exact hmarked _
  | atom text =>
      simp only [step] at h
      split at h
      case h_1 name hname =>
        rw [Text.eq_append_of_after? hname] at hdelivered
        exact hdelivered (.special name) h
      case h_2 =>
        split at h
        case isTrue =>
          cases h
          exact hmarked _
        case isFalse plain =>
          obtain ⟨f, hf, h⟩ := exists_of_bind_eq_ok h
          exact hdelivered (.atom plain hf) h

theorem run_congr (agree : ∀ name ∈ names, name ∈ features ↔ name ∈ features') {s : State}
    {ts : List Token} (hs : ∀ frame ∈ s.stack, frame.KeywordsIn names)
    (hts : ∀ t ∈ ts, ∀ name, t.lexeme.keyword? = some name → name ∈ names) :
    run features s ts = run features' s ts := by
  induction ts generalizing s with
  | nil => rfl
  | cons t ts ih =>
      obtain ⟨ht, hrest⟩ := List.forall_mem_cons.1 hts
      rw [run_cons, run_cons, step_congr agree hs]
      cases hstep : step features' s t with
      | error e => rfl
      | ok u => exact ih (keywordsIn_of_step hs ht hstep) hrest

end Reader

/-! ## Texts -/

namespace Form

theorem readAll_congr {features features' : List Text} {t : Text}
    (agree : ∀ name ∈ t.keywords, name ∈ features ↔ name ∈ features') :
    readAll features t = readAll features' t := by
  cases hts : Token.tokenize t with
  | error e => simp only [readAll, hts, bind, Except.bind]
  | ok ts =>
      have hkeywords : t.keywords = ts.filterMap fun token => token.lexeme.keyword? := by
        rw [Text.keywords, Token.tokenize_eq_ok_iff.1 hts]
      have hts' : ∀ token ∈ ts, ∀ name, token.lexeme.keyword? = some name → name ∈ t.keywords :=
        fun token htoken name hname =>
          hkeywords ▸ List.mem_filterMap.2 ⟨token, htoken, hname⟩
      have hstart : ∀ frame ∈ Reader.State.start.stack, frame.KeywordsIn t.keywords :=
        fun _ hframe => absurd hframe List.not_mem_nil
      have hrun := Reader.run_congr agree hstart hts'
      simp only [readAll, hts, Reader.readTokens, hrun, bind, Except.bind]

/-- Feature sets that agree on every keyword of a text read it alike, and fail on it alike.  So
a text without the keywords `:clj` and `:cljs` is the same under either of these features. -/
theorem readAll_of_keywords_agree (t : Text) :
    (∀ features features' : List Text,
      (∀ name ∈ t.keywords, name ∈ features ↔ name ∈ features') →
        readAll features t = readAll features' t) ∧
    ((∀ name ∈ t.keywords, name ≠ "clj" ∧ name ≠ "cljs") →
      readAll ["clj"] t = readAll ["cljs"] t) := by
  refine ⟨fun _ _ agree => readAll_congr agree, fun unnamed => readAll_congr fun name hname => ?_⟩
  obtain ⟨hclj, hcljs⟩ := unnamed name hname
  simp [hclj, hcljs]

/-- Conditionals after a discard, in metadata, and in a branch that is spliced. -/
def nestedConditionals : Text :=
  "#_ #?(:clj 1) ^\x7b:tag #?(::clj a :bb b)\x7d x\n[#?@(:clj (#?(:default y) \":cljs\"))]"

/-- The text names `:cljs` in a string only. -/
theorem readAll_nestedConditionals :
    (∀ name ∈ nestedConditionals.keywords,
      name ∈ [Text.ofString "clj"] ↔ name ∈ [Text.ofString "clj", Text.ofString "cljs"]) ∧
      readAll ["clj"] nestedConditionals = readAll ["clj", "cljs"] nestedConditionals ∧
      (readAll ["clj", "cljs"] nestedConditionals).map (·.map render) =
        .ok ["x", "[y \":cljs\"]"] := by
  have agree : ∀ name ∈ nestedConditionals.keywords,
      name ∈ [Text.ofString "clj"] ↔ name ∈ [Text.ofString "clj", Text.ofString "cljs"] := by
    decide +kernel
  exact ⟨agree, (readAll_of_keywords_agree _).1 _ _ agree, by decide +kernel⟩

end Form

end Docsmith
