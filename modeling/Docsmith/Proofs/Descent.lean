import Docsmith.Proofs.Context
import Docsmith.Proofs.Partition

/-!
# Reading by descent

The reader without a stack: what is open is kept by the calls that have not returned.  A call
reads the item at a place among the tokens, and returns the forms of the item and the place behind
it.  The items of a collection and the form behind a mark are read by calls of their own.  Places,
and the names of delimiters and marks, are looked up where they are needed, and so a call might also
end because there is nothing to look up, or not at all.
-/

namespace Docsmith.Reader.Descent

inductive Halt where
  | failure (e : ReadError)
  | noToken (place : Nat)
  | noEntry (name : Text)
  | exhausted
deriving DecidableEq, Repr

def closers : Table Text Text :=
  [("(", ")"), ("[", "]"), ("\x7b", "\x7d"), ("#\x7b", "\x7d"), ("#(", ")"), ("#?(", ")"),
   ("#?@(", ")")]

def quoteNames : Table Text Text :=
  [("'", "quote"), ("`", "syntax-quote"), ("~", "unquote"), ("~@", "unquote-splicing"),
   ("@", "deref"), ("#'", "var")]

def lookup (names : Table Text Text) (name : Text) : Except Halt Text :=
  match names.get? name with
  | some entry => .ok entry
  | none => .error (.noEntry name)

def checked {α : Type} (x : Except ReadError α) : Except Halt α := x.mapError .failure

def closer? : Lexeme → Option Closer
  | .closer c => some c
  | _ => none

section

variable (features : List Text) (ts : List Token)

def tokenAt (i : Nat) : Except Halt Token :=
  match ts[i]? with
  | some t => .ok t
  | none => .error (.noToken i)

mutual
/-- The forms of the item at a place, and the place behind it.  The first number bounds how many
calls are open at a time. -/
def item : Nat → Nat → Except Halt (List Form × Nat)
  | 0, _ => .error .exhausted
  | n + 1, i => do
      let t ← tokenAt ts i
      match t.lexeme with
      | .opener o => do
          let last ← lookup closers o.text
          let (inner, j) ← items n last t.line [] (i + 1)
          let fs ← checked (Form.ofCollection features o t.line inner)
          return (fs, j)
      | .closer c => .error (.failure (.unmatched c t.line))
      | .str body => return ([.str (Form.unescape body)], i + 1)
      | .regex body => return ([.regex body], i + 1)
      | .char name => return ([.char name], i + 1)
      | .discard => do
          let (_, j) ← one n t.line (i + 1)
          return ([], j)
      | .hat => do
          let (m, j) ← one n t.line (i + 1)
          let attrs ← checked m.toAttrs
          let (f, k) ← one n t.line j
          return ([f.annotate attrs], k)
      | .quote q => do
          let (f, j) ← one n t.line (i + 1)
          let name ← lookup quoteNames q.text
          return ([.coll .list t.line [Form.ofName name, f]], j)
      | .atom text =>
          match Text.after? "##" text with
          | some name => return ([Form.ofName name], i + 1)
          | none =>
              if text.head? = some (CodePoint.ofChar '#') then do
                let (f, j) ← one n t.line (i + 1)
                return ([f], j)
              else do
                let f ← checked (Form.ofAtom text)
                return ([f], i + 1)
termination_by structural n => n

def one : Nat → Nat → Nat → Except Halt (Form × Nat)
  | 0, _, _ => .error .exhausted
  | n + 1, line, i =>
      if ts.length ≤ i then .error (.failure (.unfinished line))
      else do
        let t ← tokenAt ts i
        match closer? t.lexeme with
        | some c => .error (.failure (.unexpected c t.line))
        | none => do
            let (fs, j) ← item n i
            match fs with
            | f :: _ => return (f, j)
            | [] => one n line j
termination_by structural n => n

/-- The forms up to a closing delimiter, behind those that are there already. -/
def items : Nat → Text → Nat → List Form → Nat → Except Halt (List Form × Nat)
  | 0, _, _, _, _ => .error .exhausted
  | n + 1, last, line, fs, i =>
      if ts.length ≤ i then .error (.failure (.unclosed line))
      else do
        let t ← tokenAt ts i
        match closer? t.lexeme with
        | some c =>
            if c.text = last then return (fs, i + 1)
            else .error (.failure (.unmatched c t.line))
        | none => do
            let (more, j) ← item n i
            items n last line (fs ++ more) j
termination_by structural n => n
end

def all : Nat → List Form → Nat → Except Halt (List Form)
  | 0, _, _ => .error .exhausted
  | n + 1, fs, i =>
      if ts.length ≤ i then return fs
      else do
        let t ← tokenAt ts i
        match closer? t.lexeme with
        | some c => .error (.failure (.unmatched c t.line))
        | none => do
            let (more, j) ← item features ts n i
            all n (fs ++ more) j

end

def readAll (features : List Text) (n : Nat) (t : Text) : Except Halt (List Form) := do
  let ts ← checked (Token.tokenize t)
  all features ts n [] 0

variable {features : List Text} {ts : List Token}

theorem lookup_closers (o : Opener) : lookup closers o.text = .ok o.closer.text := by
  cases o <;> rfl

theorem lookup_quoteNames (q : QuoteMark) : lookup quoteNames q.text = .ok q.symbolName := by
  cases q <;> rfl

theorem text_closer_inj {c d : Closer} : c.text = d.text ↔ c = d := by
  cases c <;> cases d <;> decide

theorem tokenAt_eq_ok_iff {i : Nat} {t : Token} : tokenAt ts i = .ok t ↔ ts[i]? = some t := by
  unfold tokenAt
  cases ts[i]? <;> simp

theorem checked_eq_ok_iff {α : Type} {x : Except ReadError α} {a : α} :
    checked x = .ok a ↔ x = .ok a := by
  cases x <;> simp [checked, Except.mapError]

/-! ## Calls that return -/

def Behind (ts : List Token) (i j : Nat) : Prop := i < j ∧ j ≤ ts.length

theorem behind_succ {i : Nat} {t : Token} (h : tokenAt ts i = .ok t) : Behind ts i (i + 1) := by
  obtain ⟨hlt, -⟩ := List.getElem?_eq_some_iff.1 (tokenAt_eq_ok_iff.1 h)
  exact ⟨Nat.lt_succ_self i, hlt⟩

theorem Behind.trans {i j k : Nat} (h : Behind ts i j) (hk : Behind ts j k) : Behind ts i k :=
  ⟨h.1.trans hk.1, hk.2⟩

structure Advance (features : List Text) (ts : List Token) (n : Nat) : Prop where
  item {i : Nat} {fs : List Form} {j : Nat} : item features ts n i = .ok (fs, j) → Behind ts i j
  one {line i : Nat} {f : Form} {j : Nat} : one features ts n line i = .ok (f, j) → Behind ts i j
  items {last : Text} {line : Nat} {fs gs : List Form} {i j : Nat} :
    items features ts n last line fs i = .ok (gs, j) → Behind ts i j

theorem behind_of_item {n i j : Nat} {fs : List Form} (ih : Advance features ts n)
    (h : item features ts (n + 1) i = .ok (fs, j)) : Behind ts i j := by
  rw [item] at h
  obtain ⟨t, ht, h⟩ := exists_of_bind_eq_ok h
  have hnext := behind_succ ht
  obtain ⟨l, line⟩ := t
  cases l with
  | opener o =>
      obtain ⟨last, -, h⟩ := exists_of_bind_eq_ok h
      obtain ⟨⟨inner, k⟩, hinner, h⟩ := exists_of_bind_eq_ok h
      obtain ⟨gs, -, h⟩ := exists_of_bind_eq_ok h
      cases h
      exact hnext.trans (ih.items hinner)
  | closer c => cases h
  | str | regex | char =>
      cases h
      exact hnext
  | discard =>
      obtain ⟨⟨f, k⟩, hone, h⟩ := exists_of_bind_eq_ok h
      cases h
      exact hnext.trans (ih.one hone)
  | hat =>
      obtain ⟨⟨m, k⟩, hfront, h⟩ := exists_of_bind_eq_ok h
      obtain ⟨attrs, -, h⟩ := exists_of_bind_eq_ok h
      obtain ⟨⟨f, last⟩, hone, h⟩ := exists_of_bind_eq_ok h
      cases h
      exact (hnext.trans (ih.one hfront)).trans (ih.one hone)
  | quote q =>
      obtain ⟨⟨f, k⟩, hone, h⟩ := exists_of_bind_eq_ok h
      obtain ⟨name, -, h⟩ := exists_of_bind_eq_ok h
      cases h
      exact hnext.trans (ih.one hone)
  | atom text =>
      simp only at h
      split at h
      · cases h
        exact hnext
      · split at h
        · obtain ⟨⟨f, k⟩, hone, h⟩ := exists_of_bind_eq_ok h
          cases h
          exact hnext.trans (ih.one hone)
        · obtain ⟨f, -, h⟩ := exists_of_bind_eq_ok h
          cases h
          exact hnext

theorem behind_of_one {n line i j : Nat} {f : Form} (ih : Advance features ts n)
    (h : one features ts (n + 1) line i = .ok (f, j)) : Behind ts i j := by
  rw [one] at h
  split at h
  · cases h
  · obtain ⟨t, -, h⟩ := exists_of_bind_eq_ok h
    split at h
    · cases h
    · obtain ⟨⟨fs, k⟩, hitem, h⟩ := exists_of_bind_eq_ok h
      have hfirst := ih.item hitem
      cases fs with
      | nil => exact hfirst.trans (ih.one h)
      | cons g fs =>
          cases h
          exact hfirst

theorem behind_of_items {n line i j : Nat} {last : Text} {fs gs : List Form}
    (ih : Advance features ts n) (h : items features ts (n + 1) last line fs i = .ok (gs, j)) :
    Behind ts i j := by
  rw [items] at h
  split at h
  · cases h
  · obtain ⟨t, ht, h⟩ := exists_of_bind_eq_ok h
    split at h
    · split at h
      · cases h
        exact behind_succ ht
      · cases h
    · obtain ⟨⟨more, k⟩, hitem, h⟩ := exists_of_bind_eq_ok h
      exact (ih.item hitem).trans (ih.items h)

/-- Every call that returns has come to a place behind its own, and not beyond the end. -/
theorem advance (features : List Text) (ts : List Token) (n : Nat) : Advance features ts n := by
  induction n with
  | zero =>
      refine ⟨fun h => ?_, fun h => ?_, fun h => ?_⟩
      · rw [item] at h
        cases h
      · rw [one] at h
        cases h
      · rw [items] at h
        cases h
  | succ n ih => exact ⟨behind_of_item ih, behind_of_one ih, behind_of_items ih⟩

/-! ## Calls and the stack -/

theorem ok_bind {ε α β : Type} (a : α) (next : α → Except ε β) : (Except.ok a >>= next) = next a :=
  rfl

theorem bind_congr_of_ok {ε α β : Type} {x : Except ε α} {f g : α → Except ε β}
    (h : ∀ a, x = .ok a → f a = g a) : x >>= f = x >>= g := by
  cases x with
  | error e => rfl
  | ok a => exact h a rfl

theorem checked_bind {α β : Type} (x : Except ReadError α) (next : α → Except ReadError β) :
    checked (x >>= next) = checked x >>= fun a => checked (next a) := by
  cases x <;> rfl

def resume (features : List Text) (ts : List Token) (s : State) (i : Nat) :
    Except ReadError (List Form) :=
  run features s (ts.drop i) >>= finish

theorem resume_of_getElem? {i : Nat} {t : Token} (h : ts[i]? = some t) (s : State) :
    resume features ts s i = step features s t >>= fun u => resume features ts u (i + 1) := by
  obtain ⟨hlt, rfl⟩ := List.getElem?_eq_some_iff.1 h
  rw [resume, List.drop_eq_getElem_cons hlt, run_cons, bind_assoc]
  rfl

theorem resume_of_le {i : Nat} (h : ts.length ≤ i) (s : State) :
    resume features ts s i = finish s := by
  rw [resume, List.drop_eq_nil_of_le h]
  rfl

theorem closer?_eq_some_iff {l : Lexeme} {c : Closer} : closer? l = some c ↔ l = .closer c := by
  cases l <;> simp [closer?]

theorem resume_of_closer {i : Nat} {t : Token} {c : Closer} (h : ts[i]? = some t)
    (hc : closer? t.lexeme = some c) (s : State) :
    resume features ts s i =
      close features s c t.line >>= fun u => resume features ts u (i + 1) := by
  rw [resume_of_getElem? h]
  simp only [step, closer?_eq_some_iff.1 hc]

def handOn (features : List Text) (ts : List Token) (top : List Form) (stack : List Frame)
    (fs : List Form) (j : Nat) : Except ReadError (List Form) :=
  deliver top stack fs >>= fun u => resume features ts u j

/-- To read on with what a call has returned is to read on with the stack from the place of the
call.  The bound is two for each token that is left: an item is read by a call of its own, and the
call inside it for the forms up to a closing delimiter, or for the form behind a mark, makes the
next. -/
structure Follows (features : List Text) (ts : List Token) (n : Nat) : Prop where
  item {i : Nat} {t : Token} : ts[i]? = some t → closer? t.lexeme = none →
    2 * (ts.length - i) ≤ n → ∀ top stack,
    (item features ts n i >>= fun r => checked (handOn features ts top stack r.1 r.2)) =
      checked (resume features ts ⟨top, stack⟩ i)
  one {i : Nat} : 2 * (ts.length - i) < n → ∀ top stack wait line,
    (one features ts n line i >>= fun r =>
        checked (handOn features ts top (.await wait line :: stack) [r.1] r.2)) =
      checked (resume features ts ⟨top, .await wait line :: stack⟩ i)
  items {i : Nat} : 2 * (ts.length - i) < n → ∀ top stack o line fs,
    (items features ts n o.closer.text line fs i >>= fun r =>
        checked (Form.ofCollection features o line r.1 >>= fun gs =>
          handOn features ts top stack gs r.2)) =
      checked (resume features ts ⟨top, .gather o line fs.reverse :: stack⟩ i)

variable {n i : Nat}

theorem follows_item {t : Token} (ih : Follows features ts n) (ht : ts[i]? = some t)
    (hfree : closer? t.lexeme = none) (hn : 2 * (ts.length - i) ≤ n + 1) (top : List Form)
    (stack : List Frame) :
    (item features ts (n + 1) i >>= fun r => checked (handOn features ts top stack r.1 r.2)) =
      checked (resume features ts ⟨top, stack⟩ i) := by
  have hlt : i < ts.length := (List.getElem?_eq_some_iff.1 ht).1
  have hnext : 2 * (ts.length - (i + 1)) < n := by omega
  rw [resume_of_getElem? ht, item, tokenAt_eq_ok_iff.2 ht, ok_bind]
  obtain ⟨l, line⟩ := t
  cases l with
  | opener o =>
      simp only [lookup_closers, ok_bind, bind_assoc, pure_bind]
      have hinner := ih.items hnext top stack o line []
      simp only [checked_bind] at hinner
      exact hinner
  | closer c => cases hfree
  | str | regex | char => rfl
  | discard =>
      rw [bind_assoc]
      exact ih.one hnext top stack .discard line
  | hat =>
      rw [bind_assoc]
      refine (bind_congr_of_ok ?_).trans (ih.one hnext top stack .attrs line)
      rintro ⟨m, j⟩ hone
      have hbehind : i + 1 < j := ((advance features ts n).one hone).1
      have htarget : 2 * (ts.length - j) < n := by omega
      have hattrs : handOn features ts top (.await .attrs line :: stack) [m] j =
          m.toAttrs >>= fun attrs =>
            resume features ts ⟨top, .await (.target attrs) line :: stack⟩ j := by
        rw [handOn, deliver, bind_assoc]
        rfl
      rw [bind_assoc, hattrs, checked_bind]
      refine bind_congr_of_ok fun attrs _ => ?_
      rw [bind_assoc]
      exact ih.one htarget top stack (.target attrs) line
  | quote q =>
      simp only [lookup_quoteNames, ok_bind, bind_assoc]
      exact ih.one hnext top stack (.quote q) line
  | atom text =>
      cases hspecial : Text.after? "##" text with
      | some name =>
          simp only [step, hspecial]
          rfl
      | none =>
          simp only [step, hspecial]
          split
          · rw [bind_assoc]
            exact ih.one hnext top stack .tag line
          · rw [bind_assoc, bind_assoc, checked_bind]
            rfl

theorem follows_one (ih : Follows features ts n) (hn : 2 * (ts.length - i) < n + 1)
    (top : List Form) (stack : List Frame) (wait : Wait) (line : Nat) :
    (one features ts (n + 1) line i >>= fun r =>
        checked (handOn features ts top (.await wait line :: stack) [r.1] r.2)) =
      checked (resume features ts ⟨top, .await wait line :: stack⟩ i) := by
  rw [one]
  split
  case isTrue hend =>
    rw [resume_of_le hend]
    rfl
  case isFalse hend =>
    have ht : ts[i]? = some ts[i] := List.getElem?_eq_getElem (by omega)
    rw [tokenAt_eq_ok_iff.2 ht, ok_bind]
    cases hfree : closer? ts[i].lexeme with
    | some c =>
        rw [resume_of_closer ht hfree]
        rfl
    | none =>
        rw [← ih.item ht hfree (by omega) top (.await wait line :: stack), bind_assoc]
        refine bind_congr_of_ok ?_
        rintro ⟨fs, j⟩ hitem
        have hbehind : i < j := ((advance features ts n).item hitem).1
        cases fs with
        | nil =>
            have hrest := ih.one (i := j) (by omega) top stack wait line
            rw [handOn, deliver_nil]
            exact hrest
        | cons f fs =>
            rw [handOn, deliver_await_cons]
            rfl

theorem follows_items (ih : Follows features ts n) (hn : 2 * (ts.length - i) < n + 1)
    (top : List Form) (stack : List Frame) (o : Opener) (line : Nat) (fs : List Form) :
    (items features ts (n + 1) o.closer.text line fs i >>= fun r =>
        checked (Form.ofCollection features o line r.1 >>= fun gs =>
          handOn features ts top stack gs r.2)) =
      checked (resume features ts ⟨top, .gather o line fs.reverse :: stack⟩ i) := by
  rw [items]
  split
  case isTrue hend =>
    rw [resume_of_le hend]
    rfl
  case isFalse hend =>
    have ht : ts[i]? = some ts[i] := List.getElem?_eq_getElem (by omega)
    rw [tokenAt_eq_ok_iff.2 ht, ok_bind]
    cases hfree : closer? ts[i].lexeme with
    | some c =>
        rw [resume_of_closer ht hfree]
        by_cases hmatch : o.closer = c
        · simp only [close, hmatch, if_true, List.reverse_reverse, bind_assoc]
          rfl
        · have hother : ¬c = o.closer := Ne.symm hmatch
          simp only [close, text_closer_inj, hmatch, hother, if_false]
          rfl
    | none =>
        rw [← ih.item ht hfree (by omega), bind_assoc]
        refine bind_congr_of_ok ?_
        rintro ⟨more, j⟩ hitem
        have hbehind : i < j := ((advance features ts n).item hitem).1
        have hrest := ih.items (i := j) (by omega) top stack o line (fs ++ more)
        rw [List.reverse_append] at hrest
        exact hrest

theorem follows (features : List Text) (ts : List Token) (n : Nat) : Follows features ts n := by
  induction n with
  | zero =>
      refine ⟨fun ht _ hn => ?_, fun hn => ?_, fun hn => ?_⟩
      · have hlt := (List.getElem?_eq_some_iff.1 ht).1
        omega
      · omega
      · omega
  | succ n ih => exact ⟨follows_item ih, follows_one ih, follows_items ih⟩

theorem all_eq_resume (hn : 2 * (ts.length - i) < n) (fs : List Form) :
    all features ts n fs i = checked (resume features ts ⟨fs.reverse, []⟩ i) := by
  induction n generalizing fs i with
  | zero => omega
  | succ n ih =>
      rw [all]
      split
      case isTrue hend =>
        rw [resume_of_le hend, finish, List.reverse_reverse]
        rfl
      case isFalse hend =>
        have ht : ts[i]? = some ts[i] := List.getElem?_eq_getElem (by omega)
        rw [tokenAt_eq_ok_iff.2 ht, ok_bind]
        cases hfree : closer? ts[i].lexeme with
        | some c =>
            rw [resume_of_closer ht hfree]
            rfl
        | none =>
            rw [← (follows features ts n).item ht hfree (by omega)]
            refine bind_congr_of_ok ?_
            rintro ⟨more, j⟩ hitem
            have hbehind : i < j := ((advance features ts n).item hitem).1
            have hrest := ih (i := j) (by omega) (fs ++ more)
            rw [List.reverse_append] at hrest
            exact hrest

theorem readAll_eq (features : List Text) {t : Text} (hn : 2 * (Token.lexemes t).length < n) :
    readAll features n t = checked (Form.readAll features t) := by
  rw [readAll, Form.readAll, checked_bind]
  refine bind_congr_of_ok fun ts hts => ?_
  obtain rfl := Token.eq_lexemes_of_tokenize (checked_eq_ok_iff.1 hts)
  exact all_eq_resume hn []

end Docsmith.Reader.Descent
