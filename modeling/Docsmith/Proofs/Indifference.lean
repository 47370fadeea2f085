import Docsmith.Proofs.Conditionals

/-!
# The reader does not look at metadata

States that differ in metadata alone do the same with a token.  Metadata come back in one place:
the name of an entry is the label of its key, and the label of a collection shows the metadata
inside.  So a run may stop at a label that is too long to be written where another does not.  If no
integer is above the limit, no run stops there.
-/

namespace Docsmith

open Grammar

/-- The results are the same up to lines and to what `h` leaves out, unless one of them is that
a label was too long to be written. -/
def AgreeUpTo {α β : Type} (h : α → β) (x y : Except ReadError α) : Prop :=
  x = .error .integerTooLongToWrite ∨ y = .error .integerTooLongToWrite ∨
    relocate (fun _ => 0) h x = relocate (fun _ => 0) h y

section

variable {α β γ δ : Type} {h : α → γ} {k : β → δ}

theorem AgreeUpTo.of_eq {x y : Except ReadError α}
    (hxy : relocate (fun _ => 0) h x = relocate (fun _ => 0) h y) : AgreeUpTo h x y :=
  .inr (.inr hxy)

theorem AgreeUpTo.ok {a b : α} (hab : h a = h b) : AgreeUpTo h (.ok a) (.ok b) :=
  .of_eq (congrArg Except.ok hab)

theorem AgreeUpTo.bind {x y : Except ReadError α} {next next' : α → Except ReadError β}
    (hxy : AgreeUpTo h x y) (hnext : ∀ a b, h a = h b → AgreeUpTo k (next a) (next' b)) :
    AgreeUpTo k (x >>= next) (y >>= next') := by
  rcases hxy with rfl | rfl | hsame
  · exact .inl rfl
  · exact .inr (.inl rfl)
  · cases x with
    | error e =>
        cases y with
        | error e' => exact .of_eq (congrArg Except.error (Except.error.inj hsame))
        | ok b => cases hsame
    | ok a =>
        cases y with
        | error e' => cases hsame
        | ok b => exact hnext a b (Except.ok.inj hsame)

end

namespace Form

theorem keeps_bare : Keeps (fun _ => 0) bare where
  keyword _ := rfl
  coll := bare_coll
  other {f} hf := by
    cases f with
    | keyword | coll => cases hf
    | _ => rfl

@[simp] theorem bare_annotate (attrs : Attrs) (f : Form) : (f.annotate attrs).bare = f.bare := by
  cases f <;> rfl

theorem toAttrs_eq (f : Form) :
    f.toAttrs = .ok f.entries ∨ f.toAttrs = .error .integerTooLongToWrite := by
  cases f with
  | coll shape line items =>
      cases shape with
      | map =>
          by_cases hkeys : ∀ e ∈ pairs items, e.1.nameable = true
          · exact .inl (attrsOfPairs_of_nameable hkeys [])
          · exact .inr (attrsOfPairs_of_not_nameable hkeys [])
      | _ => exact .inl rfl
  | _ => exact .inl rfl

theorem agree_toAttrs (f g : Form) : AgreeUpTo (fun _ => ()) f.toAttrs g.toAttrs := by
  rcases toAttrs_eq f with hf | hf
  · rcases toAttrs_eq g with hg | hg
    · rw [hf, hg]
      exact .ok rfl
    · exact .inr (.inl hg)
  · exact .inl hf

theorem agree_ofCollection (features : List Text) (o : Opener) (line line' : Nat)
    {items items' : List Form} (h : items.map bare = items'.map bare) :
    AgreeUpTo (List.map bare) (ofCollection features o line items)
      (ofCollection features o line' items') := by
  apply AgreeUpTo.of_eq
  rw [← keeps_bare.ofCollection, ← keeps_bare.ofCollection, h]

end Form

namespace Reader

open Form (bare)

variable {features : List Text}

/-! ## States that differ in metadata -/

def Wait.bare : Wait → Wait
  | .target _ => .target []
  | wait => wait

def Frame.bare : Frame → Frame
  | .gather o _ items => .gather o 0 (items.map Form.bare)
  | .await wait _ => .await wait.bare 0

/-- The state without lines and without metadata, whether given or yet to be given. -/
def State.bare (s : State) : State := ⟨s.forms.map Form.bare, s.stack.map Frame.bare⟩

theorem Wait.eq_or_exists_target {wait wait' : Wait} (h : wait.bare = wait'.bare) :
    wait = wait' ∨ ∃ attrs attrs', wait = .target attrs ∧ wait' = .target attrs' := by
  cases wait <;> cases wait' <;> simp_all [Wait.bare]

theorem agree_deliver {top top' : List Form} {stack stack' : List Frame} {fs fs' : List Form}
    (htop : top.map bare = top'.map bare)
    (hstack : stack.map Frame.bare = stack'.map Frame.bare)
    (hfs : fs.map bare = fs'.map bare) :
    AgreeUpTo State.bare (deliver top stack fs) (deliver top' stack' fs') := by
  induction stack generalizing stack' fs fs' with
  | nil =>
      obtain rfl := List.map_eq_nil_iff.1 hstack.symm
      apply AgreeUpTo.ok
      simp [State.bare, htop, hfs]
  | cons frame stack ih =>
      obtain ⟨frame', stack', rfl, hframe, hrest⟩ := List.map_eq_cons_iff.1 hstack.symm
      cases frame with
      | gather o line items =>
          cases frame' with
          | await => cases hframe
          | gather o' line' items' =>
              obtain ⟨rfl, -, hitems⟩ := Frame.gather.inj hframe
              apply AgreeUpTo.ok
              simp [State.bare, Frame.bare, htop, hfs, hitems, hrest]
      | await wait line =>
          cases frame' with
          | gather => cases hframe
          | await wait' line' =>
              obtain ⟨hwait, -⟩ := Frame.await.inj hframe
              have hdeliver {gs gs' : List Form} (hgs : gs.map bare = gs'.map bare) :
                  AgreeUpTo State.bare (deliver top stack gs) (deliver top' stack' gs') :=
                ih hrest.symm hgs
              cases fs with
              | nil =>
                  obtain rfl := List.map_eq_nil_iff.1 hfs.symm
                  apply AgreeUpTo.ok
                  simp [State.bare, Frame.bare, htop, hwait, hrest]
              | cons f fs =>
                  obtain ⟨f', fs', rfl, hf, -⟩ := List.map_eq_cons_iff.1 hfs.symm
                  rcases Wait.eq_or_exists_target hwait with rfl | ⟨attrs, attrs', rfl, rfl⟩
                  · cases wait' with
                    | discard => exact hdeliver rfl
                    | tag => exact hdeliver (by simp [hf])
                    | quote q => exact hdeliver (by simp [hf])
                    | target attrs => exact hdeliver (by simp [hf])
                    | attrs =>
                        apply (Form.agree_toAttrs f f').bind
                        intro attrs attrs' _
                        apply AgreeUpTo.ok
                        simp [State.bare, Frame.bare, Wait.bare, htop, hrest]
                  · exact hdeliver (by simp [hf])

theorem agree_close {s s' : State} (h : s.bare = s'.bare) (c : Closer) (line : Nat) :
    AgreeUpTo State.bare (close features s c line) (close features s' c line) := by
  obtain ⟨top, stack⟩ := s
  obtain ⟨top', stack'⟩ := s'
  obtain ⟨htop, hstack⟩ := State.mk.inj h
  cases stack with
  | nil =>
      obtain rfl := List.map_eq_nil_iff.1 hstack.symm
      exact .of_eq rfl
  | cons frame stack =>
      obtain ⟨frame', stack', rfl, hframe, hrest⟩ := List.map_eq_cons_iff.1 hstack.symm
      cases frame with
      | await =>
          cases frame' with
          | gather => cases hframe
          | await => exact .of_eq rfl
      | gather o start items =>
          cases frame' with
          | await => cases hframe
          | gather o' start' items' =>
              obtain ⟨rfl, -, hitems⟩ := Frame.gather.inj hframe
              simp only [close]
              split
              · have hreverse : items.reverse.map bare = items'.reverse.map bare := by
                  rw [List.map_reverse, List.map_reverse, hitems]
                apply (Form.agree_ofCollection features _ start start' hreverse).bind
                exact fun fs fs' hfs => agree_deliver htop hrest.symm hfs
              · exact .of_eq rfl

theorem agree_step {s s' : State} (h : s.bare = s'.bare) (t : Token) :
    AgreeUpTo State.bare (step features s t) (step features s' t) := by
  obtain ⟨htop, hstack⟩ := State.mk.inj h
  cases does t with
  | opens _ _ step | marks _ _ step =>
      rw [step, step]
      apply AgreeUpTo.ok
      simp [State.bare, push, htop, hstack]
  | stands form plain step =>
      rw [step, step]
      have hform : AgreeUpTo id form form := .of_eq rfl
      apply hform.bind
      rintro f _ rfl
      exact agree_deliver htop hstack rfl
  | closes c is step =>
      rw [step, step]
      exact agree_close h c t.line

theorem agree_run {s s' : State} (h : s.bare = s'.bare) (ts : List Token) :
    AgreeUpTo State.bare (run features s ts) (run features s' ts) := by
  induction ts generalizing s s' with
  | nil => exact .ok h
  | cons t ts ih =>
      rw [run_cons, run_cons]
      exact (agree_step h t).bind fun _ _ => ih

theorem agree_finish {s s' : State} (h : s.bare = s'.bare) :
    AgreeUpTo (List.map bare) (finish s) (finish s') := by
  obtain ⟨top, stack⟩ := s
  obtain ⟨top', stack'⟩ := s'
  obtain ⟨htop, hstack⟩ := State.mk.inj h
  cases stack with
  | nil =>
      obtain rfl := List.map_eq_nil_iff.1 hstack.symm
      apply AgreeUpTo.ok
      simp [htop]
  | cons frame stack =>
      obtain ⟨frame', stack', rfl, hframe, -⟩ := List.map_eq_cons_iff.1 hstack.symm
      cases frame <;> cases frame'
      · exact .of_eq rfl
      · cases hframe
      · cases hframe
      · exact .of_eq rfl

theorem agree_readTokens {us us' : List Token} {g g' : Form}
    (hus : ∀ s, run features s us = deliver s.forms s.stack [g])
    (hus' : ∀ s, run features s us' = deliver s.forms s.stack [g'])
    (hbare : g.bare = g'.bare) (ts vs : List Token) :
    AgreeUpTo (List.map bare) (readTokens features (ts ++ (us ++ vs)))
      (readTokens features (ts ++ (us' ++ vs))) := by
  have hmid (s : State) :
      AgreeUpTo State.bare (run features s (us ++ vs)) (run features s (us' ++ vs)) := by
    rw [run_append, run_append, hus, hus']
    apply (agree_deliver rfl rfl (by simp [hbare])).bind
    exact fun _ _ h => agree_run h vs
  have hstart : AgreeUpTo id (run features State.start ts) (run features State.start ts) :=
    .of_eq rfl
  rw [readTokens, readTokens, run_append, run_append]
  apply (hstart.bind _).bind fun _ _ => agree_finish
  rintro s _ rfl
  exact hmid s

/-! ## Labels that can be written -/

def Frame.Labelable : Frame → Prop
  | .gather _ _ items => ∀ f ∈ items, f.labelable = true
  | .await (.target attrs) _ => ∃ m : Form, m.labelable = true ∧ attrs = m.entries
  | .await _ _ => True

/-- The labels that a state may still need can be written, and none was missed. -/
def Labels : Except ReadError State → Prop
  | .ok s => ∀ frame ∈ s.stack, frame.Labelable
  | .error e => e ≠ .integerTooLongToWrite

theorem labels_bind {α : Type} {x : Except ReadError α} {next : α → Except ReadError State}
    (hx : x ≠ .error .integerTooLongToWrite) (hnext : ∀ a, x = .ok a → Labels (next a)) :
    Labels (x >>= next) := by
  cases x with
  | error e => exact fun he => hx (congrArg Except.error he)
  | ok a => exact hnext a rfl

theorem Labels.bind {x : Except ReadError State} {next : State → Except ReadError State}
    (hx : Labels x) (hnext : ∀ s, Labels (.ok s) → Labels (next s)) : Labels (x >>= next) := by
  cases x with
  | error e => exact hx
  | ok s => exact hnext s hx

theorem labels_deliver {stack : List Frame} {fs : List Form}
    (hstack : ∀ frame ∈ stack, frame.Labelable) (hfs : ∀ f ∈ fs, f.labelable = true)
    (top : List Form) : Labels (deliver top stack fs) := by
  induction stack generalizing fs with
  | nil => exact hstack
  | cons frame stack ih =>
      obtain ⟨hframe, hrest⟩ := List.forall_mem_cons.1 hstack
      cases frame with
      | gather o line items =>
          have hitems : ∀ f ∈ fs.reverse ++ items, f.labelable = true := by
            intro f hf
            rcases List.mem_append.1 hf with hf | hf
            · exact hfs f (List.mem_reverse.1 hf)
            · exact hframe f hf
          exact List.forall_mem_cons.2 ⟨hitems, hrest⟩
      | await wait line =>
          cases fs with
          | nil => exact hstack
          | cons f fs =>
              have hf : f.labelable = true := hfs f List.mem_cons_self
              cases wait with
              | discard => exact ih hrest (List.forall_mem_nil _)
              | tag => exact ih hrest (List.forall_mem_singleton.2 hf)
              | quote q =>
                  have hquoted : (Form.coll .list line [Form.ofName q.symbolName, f]).labelable =
                      true := by
                    rw [Form.labelable_coll_iff]
                    exact List.forall_mem_cons.2
                      ⟨inherited_labelable.name q, List.forall_mem_singleton.2 hf⟩
                  exact ih hrest (List.forall_mem_singleton.2 hquoted)
              | target attrs =>
                  obtain ⟨m, hm, rfl⟩ := hframe
                  have hannotated := Form.labelable_annotate hm hf
                  exact ih hrest (List.forall_mem_singleton.2 hannotated)
              | attrs =>
                  simp only [deliver, Form.toAttrs_of_labelable hf]
                  exact List.forall_mem_cons.2 ⟨⟨f, hf, rfl⟩, hrest⟩

theorem ofAtom_ne (t : Text) : Form.ofAtom t ≠ .error .integerTooLongToWrite := by
  unfold Form.ofAtom
  repeat' split
  all_goals exact nofun

theorem selectBranch_ne (splice : Bool) (line : Nat) (ps : List (Form × Form)) :
    Form.selectBranch features splice line ps ≠ .error .integerTooLongToWrite := by
  fun_induction Form.selectBranch features splice line ps <;> simp_all

theorem ofCollection_ne (o : Opener) (line : Nat) (items : List Form) :
    Form.ofCollection features o line items ≠ .error .integerTooLongToWrite := by
  intro h
  cases o with
  | paren | fnParen | bracket | setBrace => cases h
  | brace =>
      simp only [Form.ofCollection] at h
      split at h <;> cases h
  | conditional | splice =>
      simp only [Form.ofCollection] at h
      split at h
      · exact selectBranch_ne _ line _ h
      · cases h

theorem labels_close {s : State} (hs : Labels (.ok s)) (c : Closer) (line : Nat) :
    Labels (close features s c line) := by
  obtain ⟨top, stack⟩ := s
  cases stack with
  | nil => exact nofun
  | cons frame stack =>
      obtain ⟨hframe, hrest⟩ := List.forall_mem_cons.1 hs
      cases frame with
      | await => exact nofun
      | gather o start items =>
          simp only [close]
          split
          · apply labels_bind (ofCollection_ne o start items.reverse)
            intro fs hfs
            have closes := (ofCollection_eq_ok_iff o start items.reverse fs).1 hfs
            apply labels_deliver hrest
            exact closes.forall_of_inherited inherited_labelable fun f hf =>
              hframe f (List.mem_reverse.1 hf)
          · exact nofun

theorem labels_step {s : State} (hs : Labels (.ok s)) {t : Token}
    (fits : withinLimit t.lexeme = true) : Labels (step features s t) := by
  obtain ⟨l, line⟩ := t
  have hdeliver {f : Form} (denotes : Denotes l f) : Labels (deliver s.forms s.stack [f]) :=
    labels_deliver hs (List.forall_mem_singleton.2 (labelable_of_denotes fits denotes)) s.forms
  have hpush (frame : Frame) (hframe : frame.Labelable) : Labels (.ok (push s frame)) :=
    List.forall_mem_cons.2 ⟨hframe, hs⟩
  cases l with
  | opener o => exact hpush (.gather o line []) nofun
  | closer c => exact labels_close hs c line
  | str body => exact hdeliver (.str body)
  | regex body => exact hdeliver (.regex body)
  | char name => exact hdeliver (.char name)
  | discard => exact hpush (.await .discard line) trivial
  | hat => exact hpush (.await .attrs line) trivial
  | quote q => exact hpush (.await (.quote q) line) trivial
  | atom text =>
      simp only [step]
      split
      case h_1 name hname =>
        rw [Text.eq_append_of_after? hname] at hdeliver
        exact hdeliver (.special name)
      case h_2 =>
        split
        case isTrue => exact hpush (.await .tag line) trivial
        case isFalse plain =>
          apply labels_bind (ofAtom_ne text)
          exact fun f hf => hdeliver (.atom plain hf)

theorem labels_run {s : State} (hs : Labels (.ok s)) {ts : List Token}
    (fits : ∀ t ∈ ts, withinLimit t.lexeme = true) : Labels (run features s ts) := by
  induction ts generalizing s with
  | nil => exact hs
  | cons t ts ih =>
      obtain ⟨ht, hts⟩ := List.forall_mem_cons.1 fits
      rw [run_cons]
      exact (labels_step hs ht).bind fun u hu => ih hu hts

theorem ne_of_labels {x : Except ReadError State} (h : Labels x) :
    (x >>= finish) ≠ .error .integerTooLongToWrite := by
  cases x with
  | error e => exact fun he => h (Except.error.inj he)
  | ok s =>
      obtain ⟨top, stack⟩ := s
      cases stack with
      | nil => exact nofun
      | cons frame stack => cases frame <;> exact nofun

theorem readTokens_ne {us : List Token} {g : Form}
    (hus : ∀ s, run features s us = deliver s.forms s.stack [g]) (hg : g.labelable = true)
    {ts vs : List Token} (hts : ∀ t ∈ ts, withinLimit t.lexeme = true)
    (hvs : ∀ t ∈ vs, withinLimit t.lexeme = true) :
    readTokens features (ts ++ (us ++ vs)) ≠ .error .integerTooLongToWrite := by
  have hstart : Labels (.ok State.start) := List.forall_mem_nil _
  apply ne_of_labels
  rw [run_append]
  apply (labels_run hstart hts).bind
  intro s hs
  rw [run_append, hus]
  apply (labels_deliver hs (List.forall_mem_singleton.2 hg) s.forms).bind
  exact fun u hu => labels_run hu hvs

end Reader

end Docsmith
