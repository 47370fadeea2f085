import Docsmith.Proofs.Acceptance

/-!
# Reading in context

Tokens do to an open stack what they do by themselves: they work on the frames that they
have pushed, and hand the forms that they complete to whatever was open before.  So tokens
that can be read alone deliver their forms anywhere, and conversely what is read between two
delimiters can be read alone.
-/

namespace Docsmith

namespace Lexeme

def nest (n : Nat) : Lexeme → Option Nat
  | .opener _ => some (n + 1)
  | .closer _ => if n = 0 then none else some (n - 1)
  | _ => some n

def isDelimiter : Lexeme → Bool
  | .opener _ | .closer _ => true
  | _ => false

theorem nest_of_isDelimiter {l : Lexeme} (h : l.isDelimiter = false) (n : Nat) :
    l.nest n = some n := by
  cases l <;> simp_all [nest, isDelimiter]

end Lexeme

namespace Reader

variable {features : List Text}

/-! ## What a token does -/

/-- A token opens a delimiter, leaves a mark, delivers a form that depends on nothing else,
or closes a delimiter. -/
inductive Does (t : Token) : Prop
  | opens (o : Opener) (is : t.lexeme = .opener o)
      (step : ∀ features s, step features s t = .ok (push s (.gather o t.line [])))
  | marks (wait : Wait) (plain : t.lexeme.isDelimiter = false)
      (step : ∀ features s, step features s t = .ok (push s (.await wait t.line)))
  | stands (form : Except ReadError Form) (plain : t.lexeme.isDelimiter = false)
      (step : ∀ features s, step features s t = form >>= fun f => deliver s.forms s.stack [f])
  | closes (c : Closer) (is : t.lexeme = .closer c)
      (step : ∀ features s, step features s t = close features s c t.line)

theorem does (t : Token) : Does t := by
  obtain ⟨l, line⟩ := t
  cases l with
  | opener o => exact .opens o rfl fun _ _ => rfl
  | closer c => exact .closes c rfl fun _ _ => rfl
  | str body => exact .stands (.ok (.str (Form.unescape body))) rfl fun _ _ => rfl
  | regex body => exact .stands (.ok (.regex body)) rfl fun _ _ => rfl
  | char name => exact .stands (.ok (.char name)) rfl fun _ _ => rfl
  | discard => exact .marks .discard rfl fun _ _ => rfl
  | hat => exact .marks .attrs rfl fun _ _ => rfl
  | quote q => exact .marks (.quote q) rfl fun _ _ => rfl
  | atom text =>
      cases hname : Text.after? "##" text with
      | some name =>
          exact .stands (.ok (Form.ofName name)) rfl fun _ _ => by simp [step, hname, bind, Except.bind]
      | none =>
          by_cases hsign : text.head? = some (CodePoint.ofChar '#')
          · exact .marks .tag rfl fun _ _ => by simp [step, hname, hsign]
          · exact .stands (Form.ofAtom text) rfl fun _ _ => by simp [step, hname, hsign]

/-! ## Depth -/

def Frame.isGather : Frame → Bool
  | .gather .. => true
  | .await .. => false

def depth (stack : List Frame) : Nat := stack.countP Frame.isGather

@[simp] theorem depth_nil : depth [] = 0 := rfl

@[simp] theorem depth_gather (o : Opener) (line : Nat) (items : List Form) (stack : List Frame) :
    depth (.gather o line items :: stack) = depth stack + 1 :=
  List.countP_cons_of_pos rfl

@[simp] theorem depth_await (wait : Wait) (line : Nat) (stack : List Frame) :
    depth (.await wait line :: stack) = depth stack := by
  simp [depth, Frame.isGather]

/-- The number of open delimiters after tokens, if none of them closes what is not open. -/
def level (n : Nat) (ts : List Token) : Option Nat := ts.foldlM (fun n t => t.lexeme.nest n) n

theorem level_append (n : Nat) (ts us : List Token) :
    level n (ts ++ us) = (level n ts).bind fun m => level m us := by
  simp [level]

def Balanced (ts : List Token) : Prop := ∀ n, level n ts = some n

theorem balanced_nil : Balanced [] := fun _ => rfl

theorem Balanced.append {ts us : List Token} (ht : Balanced ts) (hu : Balanced us) :
    Balanced (ts ++ us) := by
  intro n
  rw [level_append, ht n]
  exact hu n

theorem balanced_singleton {t : Token} (h : t.lexeme.isDelimiter = false) : Balanced [t] := by
  intro n
  simp [level, Lexeme.nest_of_isDelimiter h]

theorem Balanced.enclosed {ts : List Token} (h : Balanced ts) (o : Opener) (c : Closer)
    (line last : Nat) : Balanced (⟨.opener o, line⟩ :: (ts ++ [⟨.closer c, last⟩])) := by
  intro n
  change level (n + 1) (ts ++ [_]) = some n
  rw [level_append, h (n + 1)]
  simp [level, Lexeme.nest]

theorem depth_of_deliver {top : List Form} {stack : List Frame} {fs : List Form} {s : State}
    (h : deliver top stack fs = .ok s) : depth s.stack = depth stack := by
  induction stack generalizing fs with
  | nil =>
      cases h
      rfl
  | cons frame stack ih =>
      cases frame with
      | gather o line items =>
          cases h
          simp
      | await wait line =>
          cases fs with
          | nil =>
              cases h
              rfl
          | cons f fs =>
              rw [depth_await]
              cases wait with
              | discard | tag | quote | target => exact ih h
              | attrs =>
                  obtain ⟨attrs, -, h⟩ := exists_of_bind_eq_ok h
                  cases h
                  simp

theorem depth_of_close {s u : State} {c : Closer} {line : Nat}
    (h : close features s c line = .ok u) : depth s.stack = depth u.stack + 1 := by
  obtain ⟨top, stack⟩ := s
  cases stack with
  | nil => cases h
  | cons frame stack =>
      cases frame with
      | await => cases h
      | gather o start items =>
          simp only [close] at h
          split at h
          · obtain ⟨fs, -, h⟩ := exists_of_bind_eq_ok h
            rw [depth_gather, depth_of_deliver h]
          · cases h

theorem nest_of_step {s u : State} {t : Token} (h : step features s t = .ok u) :
    t.lexeme.nest (depth s.stack) = some (depth u.stack) := by
  cases does t with
  | opens o is step =>
      rw [step] at h
      cases h
      simp [is, Lexeme.nest, push]
  | marks wait plain step =>
      rw [step] at h
      cases h
      simp [Lexeme.nest_of_isDelimiter plain, push]
  | stands form plain step =>
      rw [step] at h
      obtain ⟨f, -, h⟩ := exists_of_bind_eq_ok h
      rw [Lexeme.nest_of_isDelimiter plain, depth_of_deliver h]
  | closes c is step =>
      rw [step] at h
      rw [is, depth_of_close h]
      simp [Lexeme.nest]

theorem level_of_run {s u : State} {ts : List Token} (h : run features s ts = .ok u) :
    level (depth s.stack) ts = some (depth u.stack) := by
  induction ts generalizing s with
  | nil =>
      cases h
      rfl
  | cons t ts ih =>
      rw [run_cons] at h
      obtain ⟨v, ht, h⟩ := exists_of_bind_eq_ok h
      have hlevel := ih h
      simpa [level, nest_of_step ht] using hlevel

/-! ## What is done inside reaches the outside as forms only -/

def State.under (inner : List Frame) (u : State) : State := ⟨u.forms, inner ++ u.stack⟩

@[simp] theorem under_nil (u : State) : u.under [] = u := rfl

def Ready (stack : List Frame) (es : List Form) : Prop := Gathers stack ∨ es.length ≤ 1

theorem gathers_of_deliver {top : List Form} {stack : List Frame} {fs : List Form} {s : State}
    (h : deliver top stack fs = .ok s) (hg : Gathers stack) : Gathers s.stack := by
  cases stack with
  | nil =>
      cases h
      exact hg
  | cons frame stack =>
      cases frame with
      | gather =>
          cases h
          exact trivial
      | await => exact hg.elim

theorem exists_deliver_of_gathers {stack : List Frame} (hg : Gathers stack) (top fs : List Form) :
    ∃ s, deliver top stack fs = .ok s := by
  cases stack with
  | nil => exact ⟨_, rfl⟩
  | cons frame stack =>
      cases frame with
      | gather => exact ⟨_, rfl⟩
      | await => exact hg.elim

theorem deliver_append {u : State} {fs gs : List Form} (h : Ready u.stack (fs ++ gs)) :
    deliver u.forms u.stack (fs ++ gs) =
      deliver u.forms u.stack fs >>= fun v => deliver v.forms v.stack gs := by
  obtain ⟨top, stack⟩ := u
  rcases h with hg | hlength
  · cases stack with
    | nil => simp [deliver, bind, Except.bind]
    | cons frame stack =>
        cases frame with
        | gather => simp [deliver, bind, Except.bind]
        | await => exact hg.elim
  · rcases fs with _ | ⟨f, fs⟩
    · simp [bind, Except.bind]
    · obtain ⟨rfl, rfl⟩ : fs = [] ∧ gs = [] := by simpa using hlength
      simp only [List.append_nil, deliver_nil]
      cases deliver top stack [f] <;> rfl

/-- A result of reading, and the result of reading the same inside any other state: a failure
is the same failure, and forms that come out on top are delivered outside. -/
def Mirrors (top : List Form) (alone : Except ReadError State)
    (inside : State → Except ReadError State) : Prop :=
  match alone with
  | .error e => ∀ u, Gathers u.stack → inside u = .error e
  | .ok s => ∃ es, s.forms = es.reverse ++ top ∧ ∀ u, Ready u.stack es →
      inside u = (deliver u.forms u.stack es).map (State.under s.stack)

theorem mirrors_ok {top : List Form} {s : State} {inside : State → Except ReadError State}
    (hforms : s.forms = top) (h : ∀ u, inside u = .ok (u.under s.stack)) :
    Mirrors top (.ok s) inside := by
  refine ⟨[], by simpa using hforms, fun u _ => ?_⟩
  rw [h u, deliver_nil]
  rfl

theorem mirrors_deliver (top : List Form) (stack : List Frame) (fs : List Form) :
    Mirrors top (deliver top stack fs) fun u => deliver u.forms (stack ++ u.stack) fs := by
  induction stack generalizing fs with
  | nil =>
      refine ⟨fs, rfl, fun u _ => ?_⟩
      cases h : deliver u.forms u.stack fs <;> simp [h, Except.map]
  | cons frame stack ih =>
      cases frame with
      | gather o line items => exact mirrors_ok rfl fun u => rfl
      | await wait line =>
          cases fs with
          | nil => exact mirrors_ok rfl fun u => rfl
          | cons f fs =>
              cases wait with
              | discard => exact ih []
              | tag => exact ih [f]
              | quote q => exact ih [.coll .list line [Form.ofName q.symbolName, f]]
              | target attrs => exact ih [f.annotate attrs]
              | attrs =>
                  cases hattrs : f.toAttrs with
                  | error e =>
                      simp only [deliver, hattrs, bind, Except.bind]
                      exact fun u _ => by simp [deliver, hattrs, bind, Except.bind]
                  | ok attrs =>
                      simp only [deliver, hattrs, bind, Except.bind]
                      exact mirrors_ok rfl fun u => by
                        simp [deliver, hattrs, bind, Except.bind, pure, Except.pure, State.under]

theorem mirrors_bind {top : List Form} {α : Type} {x : Except ReadError α}
    {next : α → Except ReadError State} {inside : State → α → Except ReadError State}
    (h : ∀ a, x = .ok a → Mirrors top (next a) fun u => inside u a) :
    Mirrors top (x >>= next) fun u => x >>= inside u := by
  cases x with
  | error e => exact fun u _ => rfl
  | ok a => exact h a rfl

theorem mirrors_close (s : State) (c : Closer) (line : Nat) (h : s.stack ≠ []) :
    Mirrors s.forms (close features s c line) fun u => close features (u.under s.stack) c line := by
  obtain ⟨top, stack⟩ := s
  cases stack with
  | nil => exact absurd rfl h
  | cons frame stack =>
      cases frame with
      | await wait start => exact fun u _ => rfl
      | gather o start items =>
          simp only [close, State.under, List.cons_append]
          by_cases hc : o.closer = c
          · simp only [hc, if_true]
            exact mirrors_bind fun fs _ => mirrors_deliver top stack fs
          · simp only [hc, if_false]
            exact fun u _ => rfl

theorem mirrors_step (s : State) (t : Token)
    (h : (t.lexeme.nest (depth s.stack)).isSome) :
    Mirrors s.forms (step features s t) fun u => step features (u.under s.stack) t := by
  cases does t with
  | opens o is step =>
      simp only [step]
      exact mirrors_ok rfl fun u => rfl
  | marks wait plain step =>
      simp only [step]
      exact mirrors_ok rfl fun u => rfl
  | stands form plain step =>
      simp only [step]
      exact mirrors_bind fun f _ => mirrors_deliver s.forms s.stack [f]
  | closes c is step =>
      simp only [step]
      refine mirrors_close s c t.line fun hnil => ?_
      simp [is, hnil, Lexeme.nest] at h

theorem Mirrors.andThen {top : List Form} {alone : Except ReadError State}
    {inside : State → Except ReadError State} {next : State → Except ReadError State}
    (h : Mirrors top alone inside)
    (hnext : ∀ v, alone = .ok v → Mirrors v.forms (next v) fun u => next (u.under v.stack)) :
    Mirrors top (alone >>= next) fun u => inside u >>= next := by
  cases alone with
  | error e =>
      intro u hu
      simp only [h u hu]
      rfl
  | ok v =>
      obtain ⟨es, hforms, hinside⟩ := h
      have hrest := hnext v rfl
      change Mirrors top (next v) _
      cases hv : next v with
      | error e =>
          rw [hv] at hrest
          intro u hu
          obtain ⟨w, hw⟩ := exists_deliver_of_gathers hu u.forms es
          simp only [hinside u (.inl hu), hw]
          exact hrest w (gathers_of_deliver hw hu)
      | ok x =>
          rw [hv] at hrest
          obtain ⟨gs, hgs, hmore⟩ := hrest
          refine ⟨es ++ gs, by simp [hgs, hforms], fun u hu => ?_⟩
          have hes : Ready u.stack es := hu.imp_right fun hl => by
            simp only [List.length_append] at hl
            omega
          simp only [hinside u hes, deliver_append hu]
          cases hw : deliver u.forms u.stack es with
          | error e => rfl
          | ok w =>
              refine hmore w (hu.imp (gathers_of_deliver hw) fun hl => ?_)
              simp only [List.length_append] at hl
              omega

theorem mirrors_run (features : List Text) (s : State) (ts : List Token)
    (h : (level (depth s.stack) ts).isSome) :
    Mirrors s.forms (run features s ts) fun u => run features (u.under s.stack) ts := by
  induction ts generalizing s with
  | nil => exact mirrors_ok rfl fun u => rfl
  | cons t ts ih =>
      have hnest : (t.lexeme.nest (depth s.stack)).isSome := by
        cases hn : t.lexeme.nest (depth s.stack) with
        | none => simp [level, hn] at h
        | some n => rfl
      simp only [run_cons]
      refine (mirrors_step s t hnest).andThen fun v hv => ih v ?_
      simpa [level, nest_of_step hv] using h

/-! ## Reading alone and reading in context -/

theorem run_of_readTokens {ts : List Token} {fs : List Form}
    (h : readTokens features ts = .ok fs) {u : State} (hu : Ready u.stack fs) :
    run features u ts = deliver u.forms u.stack fs := by
  have hrun := readTokens_eq_ok_iff.1 h
  have hmirror := mirrors_run features State.start ts (by
    rw [level_of_run hrun]
    rfl)
  rw [hrun] at hmirror
  obtain ⟨es, hforms, hinside⟩ := hmirror
  obtain rfl : fs = es := by simpa [State.start] using hforms
  have hdeliver := hinside u hu
  cases hd : deliver u.forms u.stack fs with
  | error e =>
      rw [hd] at hdeliver
      exact hdeliver
  | ok v =>
      rw [hd] at hdeliver
      exact hdeliver

theorem run_enclosed {ts : List Token} {gs : List Form} (h : readTokens features ts = .ok gs)
    (s : State) (o : Opener) (line last : Nat) :
    run features s (⟨.opener o, line⟩ :: (ts ++ [⟨.closer o.closer, last⟩])) =
      Form.ofCollection features o line gs >>= fun fs => deliver s.forms s.stack fs := by
  have hbody : run features (push s (.gather o line [])) ts =
      .ok ⟨s.forms, .gather o line gs.reverse :: s.stack⟩ := by
    rw [run_of_readTokens h (u := push s (.gather o line [])) (.inl trivial)]
    simp [push, deliver]
  rw [run_cons]
  change run features (push s (.gather o line [])) (ts ++ [_]) = _
  rw [run_append, hbody]
  change run features ⟨s.forms, .gather o line gs.reverse :: s.stack⟩ [_] = _
  simp only [run_cons, run_nil, step, close, if_true, List.reverse_reverse]
  cases Form.ofCollection features o line gs with
  | error e => rfl
  | ok fs => cases hd : deliver s.forms s.stack fs <;> simp [bind, Except.bind, hd]

theorem run_gather {ts : List Token} (balanced : Balanced ts) (o : Opener) (line : Nat) :
    run features ⟨[], [.gather o line []]⟩ ts =
      (run features State.start ts).map fun s => ⟨[], s.stack ++ [.gather o line s.forms]⟩ := by
  have hmirror := mirrors_run features State.start ts (by simp [balanced _])
  cases halone : run features State.start ts with
  | error e =>
      rw [halone] at hmirror
      exact hmirror ⟨[], [.gather o line []]⟩ trivial
  | ok s =>
      rw [halone] at hmirror
      obtain ⟨es, hforms, hinside⟩ := hmirror
      have hinner := hinside ⟨[], [.gather o line []]⟩ (.inl trivial)
      rw [deliver] at hinner
      simpa [Except.map, State.start, State.under, hforms] using hinner

theorem exists_readTokens_of_enclosed {ts : List Token} {fs : List Form} (balanced : Balanced ts)
    {o : Opener} {line last : Nat}
    (h : readTokens features (⟨.opener o, line⟩ :: (ts ++ [⟨.closer o.closer, last⟩])) = .ok fs) :
    ∃ gs, readTokens features ts = .ok gs ∧ Form.ofCollection features o line gs = .ok fs := by
  have hwhole := readTokens_eq_ok_iff.1 h
  suffices hbody : ∃ gs, readTokens features ts = .ok gs by
    obtain ⟨gs, hgs⟩ := hbody
    rw [run_enclosed hgs] at hwhole
    obtain ⟨fs', hfs, hdeliver⟩ := exists_of_bind_eq_ok hwhole
    obtain rfl : fs' = fs := by simpa [deliver, State.start] using hdeliver
    exact ⟨gs, hgs, hfs⟩
  rw [run_cons] at hwhole
  change run features ⟨[], [.gather o line []]⟩ (ts ++ [_]) = _ at hwhole
  rw [run_append] at hwhole
  obtain ⟨v, hv, hclose⟩ := exists_of_bind_eq_ok hwhole
  rw [run_gather balanced] at hv
  obtain ⟨⟨forms, stack⟩, halone, rfl⟩ := exists_of_map_eq_ok hv
  have hdepth := level_of_run halone
  rw [balanced _] at hdepth
  cases stack with
  | nil => exact ⟨forms.reverse, by rw [readTokens_eq_ok_iff, halone, List.reverse_reverse]⟩
  | cons frame stack =>
      cases frame with
      | gather => simp [State.start] at hdepth
      | await => cases hclose

/-! ## What delivering keeps -/

/-- Frames keep a property when they are handed forms that have another, and so do the forms
that marks make of them. -/
structure Kept (P : Form → Prop) (Q : Frame → Prop) : Prop where
  gather {o : Opener} {line : Nat} {items fs : List Form} :
    Q (.gather o line items) → (∀ f ∈ fs, P f) → Q (.gather o line (fs.reverse ++ items))
  target (attrs : Attrs) (line : Nat) : Q (.await (.target attrs) line)
  quote (q : QuoteMark) (line : Nat) {f : Form} :
    P f → P (.coll .list line [Form.ofName q.symbolName, f])
  annotate (attrs : Attrs) {f : Form} : P f → P (f.annotate attrs)

theorem Kept.deliver {P : Form → Prop} {Q : Frame → Prop} (hkept : Kept P Q) {top : List Form}
    {stack : List Frame} {fs : List Form} {s : State} (hstack : ∀ frame ∈ stack, Q frame)
    (hfs : ∀ f ∈ fs, P f) (h : deliver top stack fs = .ok s) : ∀ frame ∈ s.stack, Q frame := by
  induction stack generalizing fs with
  | nil =>
      cases h
      exact hstack
  | cons frame stack ih =>
      obtain ⟨hframe, hrest⟩ := List.forall_mem_cons.1 hstack
      cases frame with
      | gather o line items =>
          cases h
          exact List.forall_mem_cons.2 ⟨hkept.gather hframe hfs, hrest⟩
      | await wait line =>
          cases fs with
          | nil =>
              cases h
              exact hstack
          | cons f fs =>
              have hf : P f := hfs f List.mem_cons_self
              cases wait with
              | discard => exact ih hrest (List.forall_mem_nil P) h
              | tag => exact ih hrest (List.forall_mem_singleton.2 hf) h
              | quote q => exact ih hrest (List.forall_mem_singleton.2 (hkept.quote q line hf)) h
              | target attrs =>
                  exact ih hrest (List.forall_mem_singleton.2 (hkept.annotate attrs hf)) h
              | attrs =>
                  obtain ⟨attrs, -, h⟩ := exists_of_bind_eq_ok h
                  cases h
                  exact List.forall_mem_cons.2 ⟨hkept.target attrs line, hrest⟩

/-! ## Features matter to conditionals only -/

end Reader

def Opener.isConditional (o : Opener) : Bool := (Grammar.shape? o).isNone

def Lexeme.isConditional : Lexeme → Bool
  | .opener o => o.isConditional
  | _ => false

namespace Reader

def Frame.isConditional : Frame → Bool
  | .gather o _ _ => o.isConditional
  | .await .. => false

def Unconditional (stack : List Frame) : Prop := ∀ frame ∈ stack, frame.isConditional = false

theorem Unconditional.deliver {top : List Form} {stack : List Frame} {fs : List Form} {s : State}
    (hstack : Unconditional stack) (h : deliver top stack fs = .ok s) :
    Unconditional s.stack := by
  have hkept : Kept (fun _ => True) fun frame => frame.isConditional = false :=
    ⟨fun hframe _ => hframe, fun _ _ => rfl, fun _ _ _ _ => trivial, fun _ _ _ => trivial⟩
  exact hkept.deliver hstack (fun _ _ => trivial) h

theorem ofCollection_of_isConditional {o : Opener} (h : o.isConditional = false)
    (features features' : List Text) (line : Nat) (items : List Form) :
    Form.ofCollection features o line items = Form.ofCollection features' o line items := by
  cases o with
  | conditional | splice => cases h
  | _ => rfl

theorem close_of_unconditional {s : State} (hs : Unconditional s.stack)
    (features features' : List Text) (c : Closer) (line : Nat) :
    close features s c line = close features' s c line := by
  obtain ⟨top, stack⟩ := s
  cases stack with
  | nil => rfl
  | cons frame stack =>
      cases frame with
      | await => rfl
      | gather o start items =>
          obtain ⟨hframe, -⟩ := List.forall_mem_cons.1 hs
          simp only [close, ofCollection_of_isConditional hframe features features']

theorem Unconditional.close {s u : State} {c : Closer} {line : Nat} (hs : Unconditional s.stack)
    (h : close features s c line = .ok u) : Unconditional u.stack := by
  obtain ⟨top, stack⟩ := s
  cases stack with
  | nil => cases h
  | cons frame stack =>
      cases frame with
      | await => cases h
      | gather o start items =>
          simp only [Reader.close] at h
          split at h
          · obtain ⟨fs, -, h⟩ := exists_of_bind_eq_ok h
            exact Unconditional.deliver (List.forall_mem_cons.1 hs).2 h
          · cases h

theorem step_of_unconditional {s : State} {t : Token} (hs : Unconditional s.stack)
    (features features' : List Text) : step features s t = step features' s t := by
  cases does t with
  | opens _ _ step | marks _ _ step | stands _ _ step => rw [step, step]
  | closes c is step => rw [step, step, close_of_unconditional hs]

theorem Unconditional.step {s u : State} {t : Token} (hs : Unconditional s.stack)
    (ht : t.lexeme.isConditional = false) (h : step features s t = .ok u) :
    Unconditional u.stack := by
  cases does t with
  | opens o is step =>
      rw [step] at h
      cases h
      rw [is] at ht
      exact List.forall_mem_cons.2 ⟨ht, hs⟩
  | marks wait plain step =>
      rw [step] at h
      cases h
      exact List.forall_mem_cons.2 ⟨rfl, hs⟩
  | stands form plain step =>
      rw [step] at h
      obtain ⟨f, -, h⟩ := exists_of_bind_eq_ok h
      exact hs.deliver h
  | closes c is step =>
      rw [step] at h
      exact hs.close h

theorem run_of_unconditional {s : State} {ts : List Token} (hs : Unconditional s.stack)
    (hts : ∀ t ∈ ts, t.lexeme.isConditional = false) (features features' : List Text) :
    run features s ts = run features' s ts := by
  induction ts generalizing s with
  | nil => rfl
  | cons t ts ih =>
      obtain ⟨ht, hrest⟩ := List.forall_mem_cons.1 hts
      rw [run_cons, run_cons, step_of_unconditional hs features features']
      cases hstep : step features' s t with
      | error e => rfl
      | ok u => exact ih (hs.step ht hstep) hrest

theorem readTokens_of_unconditional {ts : List Token}
    (hts : ∀ t ∈ ts, t.lexeme.isConditional = false) (features features' : List Text) :
    readTokens features ts = readTokens features' ts := by
  have hstart : Unconditional State.start.stack := by simp [Unconditional, State.start]
  rw [readTokens, readTokens, run_of_unconditional hstart hts features features']

end Reader

end Docsmith
