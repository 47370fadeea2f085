import Docsmith.Form.Reader

/-!
# Lines do not matter to the reader

Whatever lines the tokens have, the reader does the same with them: if every line is
mapped, the lines of the forms and of the failures are mapped, and nothing else changes.
-/

namespace Docsmith

def ReadError.mapLines (g : Nat → Nat) : ReadError → ReadError
  | .unreadable c line => .unreadable c (g line)
  | .unmatched c line => .unmatched c (g line)
  | .unexpected c line => .unexpected c (g line)
  | .unfinished line => .unfinished (g line)
  | .unclosed line => .unclosed (g line)
  | .oddMap line => .oddMap (g line)
  | .oddConditional line => .oddConditional (g line)
  | .featureNotKeyword line => .featureNotKeyword (g line)
  | .spliceNotSequence line => .spliceNotSequence (g line)
  | .integerTooLong digits => .integerTooLong digits
  | .integerTooLongToWrite => .integerTooLongToWrite

def relocate {α β : Type} (g : Nat → Nat) (h : α → β) :
    Except ReadError α → Except ReadError β
  | .ok a => .ok (h a)
  | .error e => .error (e.mapLines g)

theorem relocate_bind {α β γ δ : Type} {g : Nat → Nat} {h : α → γ} {k : β → δ}
    {next : α → Except ReadError β} {next' : γ → Except ReadError δ}
    (hnext : ∀ a, next' (h a) = relocate g k (next a)) (x : Except ReadError α) :
    (relocate g h x >>= next') = relocate g k (x >>= next) := by
  cases x with
  | error e => rfl
  | ok a => exact hnext a

namespace Form

variable (g : Nat → Nat)

theorem mapLinesItems_eq (items : List Form) : mapLinesItems g items = items.map (mapLines g) := by
  induction items with
  | nil => rfl
  | cons f fs ih => simp [mapLinesItems, ih]

theorem mapLinesAttrs_eq (attrs : List (Text × Form)) :
    mapLinesAttrs g attrs = attrs.map fun e => (e.1, mapLines g e.2) := by
  induction attrs with
  | nil => rfl
  | cons e r ih => simp [mapLinesAttrs, ih]

@[simp] theorem mapLines_coll (shape : Shape) (line : Nat) (items : List Form) :
    mapLines g (.coll shape line items) = .coll shape (g line) (items.map (mapLines g)) := by
  rw [mapLines, mapLinesItems_eq]

@[simp] theorem mapLines_symbol (name : Text) (attrs : List (Text × Form)) :
    mapLines g (.symbol name attrs) =
      .symbol name (attrs.map fun e => (e.1, mapLines g e.2)) := by
  rw [mapLines, mapLinesAttrs_eq]

/-! ## Labels have no lines -/

mutual
theorem labelable_mapLines : (f : Form) → (mapLines g f).labelable = f.labelable
  | .symbol _ attrs => by
      rw [mapLines, labelable, labelable]
      exact labelableAttrs_mapLines attrs
  | .coll _ _ items => by
      rw [mapLines, labelable, labelable]
      exact labelableItems_mapLines items
  | .nil | .bool _ | .int _ | .float _ | .str _ | .keyword _ | .regex _ | .char _ => rfl

theorem labelableItems_mapLines :
    (items : List Form) → labelableItems (mapLinesItems g items) = labelableItems items
  | [] => rfl
  | f :: fs => by
      rw [mapLinesItems, labelableItems, labelableItems, labelable_mapLines f,
        labelableItems_mapLines fs]

theorem labelableAttrs_mapLines :
    (attrs : List (Text × Form)) → labelableAttrs (mapLinesAttrs g attrs) = labelableAttrs attrs
  | [] => rfl
  | (_, f) :: r => by
      rw [mapLinesAttrs, labelableAttrs, labelableAttrs, labelable_mapLines f,
        labelableAttrs_mapLines r]
end

mutual
theorem inner_mapLines : (f : Form) → (mapLines g f).inner = f.inner
  | .symbol _ attrs => by
      rw [mapLines, inner, inner, innerAttrs_mapLines attrs]
  | .coll _ _ [] => rfl
  | .coll _ _ [f] => by
      rw [mapLines, mapLinesItems, mapLinesItems, inner, inner, inner_mapLines f]
  | .coll _ _ (f :: f' :: fs) => by
      have hitems := innerItems_mapLines (f :: f' :: fs)
      simp only [mapLines, mapLinesItems, inner] at hitems ⊢
      rw [hitems]
  | .nil | .bool _ | .int _ | .float _ | .str _ | .keyword _ | .regex _ | .char _ => rfl

theorem innerItems_mapLines :
    (items : List Form) → innerItems (mapLinesItems g items) = innerItems items
  | [] => rfl
  | f :: fs => by
      rw [mapLinesItems, innerItems, innerItems, inner_mapLines f, innerItems_mapLines fs]

theorem innerAttrs_mapLines :
    (attrs : List (Text × Form)) → innerAttrs (mapLinesAttrs g attrs) = innerAttrs attrs
  | [] => rfl
  | (k, f) :: r => by
      rw [mapLinesAttrs, innerAttrs, innerAttrs, inner_mapLines f, innerAttrs_mapLines r]
end

/-! ## Metadata -/

def relocateAttrs (attrs : Attrs) : Attrs := attrs.map fun e => (e.1, mapLines g e.2)

theorem attrName_mapLines (key : Form) : attrName (mapLines g key) = attrName key := by
  cases key with
  | coll shape line items =>
      have hlabelable := labelable_mapLines g (.coll shape line items)
      have hinner := inner_mapLines g (.coll shape line items)
      rw [mapLines] at hlabelable hinner ⊢
      simp only [attrName, label?, label, hlabelable, hinner]
  | symbol name attrs =>
      rw [mapLines]
      rfl
  | _ => rfl

theorem insert_relocateAttrs (name : Text) (f : Form) (attrs : Attrs) :
    Table.insert name (mapLines g f) (relocateAttrs g attrs) =
      relocateAttrs g (Table.insert name f attrs) := by
  induction attrs with
  | nil => rfl
  | cons e r ih =>
      by_cases he : e.1 = name
      · simp [relocateAttrs, Table.insert, he]
      · simp only [relocateAttrs, List.map_cons, Table.insert, he, if_false] at ih ⊢
        rw [ih]

theorem update_relocateAttrs (own attrs : Attrs) :
    Table.update (relocateAttrs g own) (relocateAttrs g attrs) =
      relocateAttrs g (Table.update own attrs) := by
  induction attrs generalizing own with
  | nil => rfl
  | cons e r ih =>
      have hstep := ih (Table.insert e.1 e.2 own)
      rw [← insert_relocateAttrs] at hstep
      exact hstep

theorem pairs_map (h : Form → Form) : (items : List Form) →
    pairs (items.map h) = (pairs items).map fun e => (h e.1, h e.2)
  | [] => rfl
  | [_] => rfl
  | k :: v :: r => by
      simp only [List.map_cons, pairs, pairs_map h r]

theorem eq_of_attrName_error {key : Form} {e : ReadError} (h : attrName key = .error e) :
    e = .integerTooLongToWrite := by
  cases key with
  | keyword => cases h
  | symbol => cases h
  | _ =>
      simp only [attrName, label?] at h
      split at h <;> cases h
      rfl

theorem attrsOfPairs_relocate (ps : List (Form × Form)) (acc : Attrs) :
    attrsOfPairs (ps.map fun e => (mapLines g e.1, mapLines g e.2)) (relocateAttrs g acc) =
      relocate g (relocateAttrs g) (attrsOfPairs ps acc) := by
  induction ps generalizing acc with
  | nil => rfl
  | cons e r ih =>
      simp only [List.map_cons, attrsOfPairs, attrName_mapLines]
      cases hname : attrName e.1 with
      | error failure =>
          obtain rfl := eq_of_attrName_error hname
          rfl
      | ok name =>
          have hrest := ih (Table.insert name e.2 acc)
          rw [← insert_relocateAttrs] at hrest
          exact hrest

theorem toAttrs_mapLines (f : Form) :
    toAttrs (mapLines g f) = relocate g (relocateAttrs g) (toAttrs f) := by
  cases f with
  | coll shape line items =>
      rw [mapLines_coll]
      cases shape with
      | map =>
          simp only [toAttrs, pairs_map]
          exact attrsOfPairs_relocate g (pairs items) []
      | _ => rfl
  | symbol name attrs =>
      rw [mapLines]
      rfl
  | _ => rfl

theorem annotate_mapLines (attrs : Attrs) (f : Form) :
    annotate (relocateAttrs g attrs) (mapLines g f) = mapLines g (annotate attrs f) := by
  cases f with
  | symbol name own =>
      simp only [mapLines_symbol, annotate]
      exact congrArg (Form.symbol name) (update_relocateAttrs g own attrs)
  | coll => simp [annotate]
  | _ => rfl

/-! ## Collections and conditionals -/

def isOther : Form → Bool
  | .keyword _ | .coll .. => false
  | _ => true

structure Keeps (g : Nat → Nat) (h : Form → Form) : Prop where
  keyword (name : Text) : h (.keyword name) = .keyword name
  coll (shape : Shape) (line : Nat) (items : List Form) :
    h (.coll shape line items) = .coll shape (g line) (items.map h)
  other {f : Form} : f.isOther = true → (h f).isOther = true

theorem keeps_mapLines : Keeps g (mapLines g) where
  keyword _ := rfl
  coll := mapLines_coll g
  other {f} hf := by
    cases f with
    | keyword | coll => cases hf
    | symbol name attrs =>
        rw [mapLines_symbol]
        rfl
    | _ => rfl

theorem selectBranch_of_isOther {key : Form} (hkey : key.isOther = true) (features : List Text)
    (splice : Bool) (line : Nat) (f : Form) (ps : List (Form × Form)) :
    selectBranch features splice line ((key, f) :: ps) = .error (.featureNotKeyword line) := by
  cases key with
  | keyword | coll => cases hkey
  | _ => rfl

theorem selectBranch_splice_of_isOther {f : Form} (hf : f.isOther = true) {features : List Text}
    {name : Text} (hon : (features.contains name || decide (name = Text.ofString "default")) = true)
    (line : Nat) (ps : List (Form × Form)) :
    selectBranch features true line ((.keyword name, f) :: ps) =
      .error (.spliceNotSequence line) := by
  unfold selectBranch
  simp only [hon, if_true]
  cases f with
  | coll => cases hf
  | _ => rfl

variable {g} {h : Form → Form}

theorem Keeps.selectBranch (hh : Keeps g h) (features : List Text) (splice : Bool) (line : Nat)
    (ps : List (Form × Form)) :
    selectBranch features splice (g line) (ps.map fun e => (h e.1, h e.2)) =
      relocate g (List.map h) (selectBranch features splice line ps) := by
  induction ps with
  | nil => rfl
  | cons e r ih =>
      obtain ⟨key, f⟩ := e
      cases key with
      | keyword name =>
          simp only [List.map_cons, hh.keyword]
          cases hon : features.contains name || decide (name = Text.ofString "default") with
          | false =>
              unfold Form.selectBranch
              simp only [hon, Bool.false_eq_true, if_false]
              exact ih
          | true =>
              cases splice with
              | false =>
                  unfold Form.selectBranch
                  simp only [hon, if_true, Bool.false_eq_true, if_false]
                  rfl
              | true =>
                  cases f with
                  | coll shape start items =>
                      unfold Form.selectBranch
                      simp only [hon, if_true, hh.coll]
                      cases shape <;> rfl
                  | keyword own =>
                      unfold Form.selectBranch
                      simp only [hon, if_true, hh.keyword]
                      rfl
                  | _ =>
                      rw [selectBranch_splice_of_isOther (hh.other rfl) hon,
                        selectBranch_splice_of_isOther rfl hon]
                      rfl
      | coll shape start items =>
          simp only [List.map_cons, hh.coll]
          rfl
      | _ =>
          rw [List.map_cons, selectBranch_of_isOther (hh.other rfl), selectBranch_of_isOther rfl]
          rfl

theorem Keeps.ofCollection (hh : Keeps g h) (features : List Text) (o : Opener) (line : Nat)
    (items : List Form) :
    ofCollection features o (g line) (items.map h) =
      relocate g (List.map h) (ofCollection features o line items) := by
  have hbranch (splice : Bool) :
      (if (items.map h).length % 2 = 0 then
          Form.selectBranch features splice (g line) (pairs (items.map h))
        else .error (.oddConditional (g line))) =
      relocate g (List.map h)
        (if items.length % 2 = 0 then Form.selectBranch features splice line (pairs items)
          else .error (.oddConditional line)) := by
    rw [List.length_map, pairs_map, hh.selectBranch]
    split <;> rfl
  cases o with
  | conditional => exact hbranch false
  | splice => exact hbranch true
  | brace =>
      simp only [Form.ofCollection, List.length_map]
      split
      · simp [relocate, hh.coll]
      · rfl
  | _ => simp [Form.ofCollection, relocate, hh.coll]

variable (g)

theorem ofAtom_relocate (t : Text) : relocate g (mapLines g) (ofAtom t) = ofAtom t := by
  unfold ofAtom ofName
  repeat' split
  all_goals rfl

end Form

/-! ## The stack -/

def Token.mapLines (g : Nat → Nat) (t : Token) : Token := ⟨t.lexeme, g t.line⟩

namespace Reader

variable (g : Nat → Nat)

def Wait.mapLines : Wait → Wait
  | .target entries => .target (Form.relocateAttrs g entries)
  | wait => wait

def Frame.mapLines : Frame → Frame
  | .gather o line items => .gather o (g line) (items.map (Form.mapLines g))
  | .await wait line => .await (wait.mapLines g) (g line)

def State.resume (base : List Form) (s : State) : State :=
  ⟨s.forms.map (Form.mapLines g) ++ base, s.stack.map (Frame.mapLines g)⟩

variable (base : List Form)

theorem deliver_resume (top : List Form) (stack : List Frame) (fs : List Form) :
    deliver (top.map (Form.mapLines g) ++ base) (stack.map (Frame.mapLines g))
        (fs.map (Form.mapLines g)) =
      relocate g (State.resume g base) (deliver top stack fs) := by
  induction stack generalizing fs with
  | nil => simp [deliver, relocate, State.resume]
  | cons frame stack ih =>
      cases frame with
      | gather o line items =>
          simp [deliver, relocate, State.resume, Frame.mapLines]
      | await wait line =>
          cases fs with
          | nil => rfl
          | cons f r =>
              cases wait with
              | discard => exact ih []
              | tag => exact ih [f]
              | quote q =>
                  have hquoted := ih [.coll .list line [Form.ofName q.symbolName, f]]
                  rw [List.map_singleton, Form.mapLines_coll] at hquoted
                  exact hquoted
              | attrs =>
                  have hattrs := Form.toAttrs_mapLines g f
                  simp only [List.map_cons, Frame.mapLines, Wait.mapLines, deliver, hattrs]
                  refine relocate_bind (fun attrs => ?_) f.toAttrs
                  rfl
              | target attrs =>
                  have htarget := ih [f.annotate attrs]
                  rw [List.map_singleton, ← Form.annotate_mapLines] at htarget
                  exact htarget

theorem close_resume (features : List Text) (s : State) (c : Closer) (line : Nat) :
    close features (s.resume g base) c (g line) =
      relocate g (State.resume g base) (close features s c line) := by
  obtain ⟨forms, stack⟩ := s
  cases stack with
  | nil => rfl
  | cons frame stack =>
      cases frame with
      | await wait start => rfl
      | gather o start items =>
          simp only [State.resume, List.map_cons, Frame.mapLines, close]
          by_cases hmatch : o.closer = c
          · simp only [hmatch, if_true]
            rw [← List.map_reverse, (Form.keeps_mapLines g).ofCollection]
            exact relocate_bind (fun fs => deliver_resume g base forms stack fs) _
          · simp only [hmatch, if_false]
            rfl

theorem step_resume (features : List Text) (s : State) (t : Token) :
    step features (s.resume g base) (t.mapLines g) =
      relocate g (State.resume g base) (step features s t) := by
  obtain ⟨lexeme, line⟩ := t
  cases lexeme with
  | opener o => rfl
  | closer c => exact close_resume g base features s c line
  | str body => exact deliver_resume g base s.forms s.stack [.str (Form.unescape body)]
  | regex body => exact deliver_resume g base s.forms s.stack [.regex body]
  | char name => exact deliver_resume g base s.forms s.stack [.char name]
  | discard => rfl
  | hat => rfl
  | quote q => rfl
  | atom text =>
      simp only [step, Token.mapLines]
      cases hname : Text.after? "##" text with
      | some name => exact deliver_resume g base s.forms s.stack [Form.ofName name]
      | none =>
          simp only
          split
          · rfl
          · conv => lhs; rw [← Form.ofAtom_relocate g text]
            refine relocate_bind (fun f => ?_) (Form.ofAtom text)
            exact deliver_resume g base s.forms s.stack [f]

theorem run_resume (features : List Text) (s : State) (ts : List Token) :
    run features (s.resume g base) (ts.map (Token.mapLines g)) =
      relocate g (State.resume g base) (run features s ts) := by
  induction ts generalizing s with
  | nil => rfl
  | cons t r ih =>
      simp only [run, List.map_cons, List.foldlM_cons, step_resume] at ih ⊢
      exact relocate_bind ih (step features s t)

theorem finish_resume (s : State) :
    finish (s.resume g base) =
      relocate g (fun fs => base.reverse ++ fs.map (Form.mapLines g)) (finish s) := by
  obtain ⟨forms, stack⟩ := s
  cases stack with
  | nil => simp [finish, State.resume, relocate]
  | cons frame stack => cases frame <;> rfl

theorem readTokens_append {features : List Text} {ts : List Token} {fs : List Form}
    (h : readTokens features ts = .ok fs) (us : List Token) :
    readTokens features (ts ++ us.map (Token.mapLines g)) =
      relocate g (fun gs => fs ++ gs.map (Form.mapLines g)) (readTokens features us) := by
  have hresume : (⟨fs.reverse, []⟩ : State) = State.start.resume g fs.reverse := rfl
  have hfirst := readTokens_eq_ok_iff.1 h
  have hfinish := finish_resume g fs.reverse
  rw [List.reverse_reverse] at hfinish
  calc
    _ = (run features (State.start.resume g fs.reverse) (us.map (Token.mapLines g)) >>=
          finish) := by
        rw [readTokens, run_append, hfirst, hresume]
        rfl
    _ = (relocate g (State.resume g fs.reverse) (run features State.start us) >>= finish) := by
        rw [run_resume]
    _ = _ := relocate_bind hfinish _

end Reader

end Docsmith
