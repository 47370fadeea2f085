import Docsmith.Form.ReadError

/-!
# Reading forms

Tokens are read one by one against a stack of what is still open: collections that
gather their items, and marks that wait for one form.  A form, once complete, is
delivered to the top of the stack, which may complete a further form.
-/

namespace Docsmith

namespace Form

/-! ## Atoms -/

def decimalLiteral? (t : Text) : Option (Bool × List Nat) :=
  let (negative, body) := Binary64.takeSign t
  let (digits, rest) := Binary64.takeDigits body
  if !digits.isEmpty && (rest.isEmpty || rest = "N") then some (negative, digits) else none

def hexLiteral? (t : Text) : Option (Bool × List Nat) :=
  let (negative, body) := Binary64.takeSign t
  match body with
  | z :: x :: digits =>
      if z = '0' && (x = 'x' || x = 'X') && !digits.isEmpty && digits.all CodePoint.isHexDigit then
        some (negative, digits.filterMap CodePoint.hexValue?)
      else none
  | _ => none

def floatLiteral? (t : Text) : Option Binary64 :=
  let (_, body) := Binary64.takeSign t
  if (body.head?.map CodePoint.isDigit).getD false then
    Binary64.ofText? (if t.getLast? = some (CodePoint.ofChar 'M') then t.dropLast else t)
  else none

def signedInt (negative : Bool) (n : Nat) : Int := if negative then -(n : Int) else n

def ofAtom (t : Text) : Except ReadError Form :=
  if t = "nil" then .ok .nil
  else if t = "true" then .ok (.bool true)
  else if t = "false" then .ok (.bool false)
  else if t.head? = some (CodePoint.ofChar ':') then .ok (.keyword (t.dropWhile (· = ':')))
  else if let some (negative, digits) := decimalLiteral? t then
    if digits.length > maxIntegerDigits then .error (.integerTooLong digits.length)
    else .ok (.int (signedInt negative (Text.foldDigits 10 digits)))
  else if let some (negative, digits) := hexLiteral? t then
    .ok (.int (signedInt negative (Text.foldDigits 16 digits)))
  else if let some x := floatLiteral? t then .ok (.float x)
  else .ok (ofName t)

/-! ## Strings -/

def unescapePoint (c : CodePoint) : CodePoint :=
  if c = 'n' then '\n'
  else if c = 't' then '\t'
  else if c = 'r' then '\r'
  else if c = 'b' then '\x08'
  else if c = 'f' then '\x0c'
  else c

def unescape : Text → Text
  | [] => []
  | [c] => [c]
  | c :: d :: r =>
      if c = '\\' then
        match r with
        | w :: x :: y :: z :: s =>
            if d = 'u' && [w, x, y, z].all CodePoint.isHexDigit then
              CodePoint.ofNat (Text.foldDigits 16 ([w, x, y, z].filterMap CodePoint.hexValue?))
                :: unescape s
            else unescapePoint d :: unescape (w :: x :: y :: z :: s)
        | r => unescapePoint d :: unescape r
      else c :: unescape (d :: r)

/-! ## Metadata -/

def attrName (key : Form) : Except ReadError Text :=
  match key with
  | .keyword name => .ok name
  | key => (key.label?.map Except.ok).getD (.error .integerTooLongToWrite)

def attrsOfPairs : List (Form × Form) → Attrs → Except ReadError Attrs
  | [], acc => .ok acc
  | (k, v) :: r, acc => do
      let name ← attrName k
      attrsOfPairs r (acc.insert name v)

def toAttrs (form : Form) : Except ReadError Attrs :=
  match form with
  | .keyword name => .ok [(name, .bool true)]
  | .symbol name _ => .ok [("tag", .str name)]
  | .str s => .ok [("tag", .str s)]
  | .coll .map _ items => attrsOfPairs (pairs items) []
  | _ => .ok []

def annotate (attrs : Attrs) : Form → Form
  | .symbol name own => .symbol name (Table.update own attrs)
  | f => f

/-! ## Collections and conditionals -/

def selectBranch (features : List Text) (splice : Bool) (line : Nat) :
    List (Form × Form) → Except ReadError (List Form)
  | [] => .ok []
  | (.keyword name, form) :: r =>
      if features.contains name || name = "default" then
        if splice then
          match form with
          | .coll .list _ items | .coll .vector _ items => .ok items
          | _ => .error (.spliceNotSequence line)
        else .ok [form]
      else selectBranch features splice line r
  | _ => .error (.featureNotKeyword line)

def ofCollection (features : List Text) (o : Opener) (line : Nat) (items : List Form) :
    Except ReadError (List Form) :=
  match o with
  | .paren | .fnParen => .ok [.coll .list line items]
  | .bracket => .ok [.coll .vector line items]
  | .setBrace => .ok [.coll .set line items]
  | .brace =>
      if items.length % 2 = 0 then .ok [.coll .map line items] else .error (.oddMap line)
  | .conditional =>
      if items.length % 2 = 0 then selectBranch features false line (pairs items)
      else .error (.oddConditional line)
  | .splice =>
      if items.length % 2 = 0 then selectBranch features true line (pairs items)
      else .error (.oddConditional line)

end Form

namespace Reader

inductive Wait where
  | discard
  | tag
  | quote (q : QuoteMark)
  | attrs
  | target (attrs : Attrs)
deriving Repr

inductive Frame where
  | gather (o : Opener) (line : Nat) (items : List Form)
  | await (wait : Wait) (line : Nat)
deriving Repr

structure State where
  forms : List Form
  stack : List Frame
deriving Repr

def State.start : State := ⟨[], []⟩

/-- Hands forms to the innermost open frame.  A mark takes the first of them, and goes on
waiting if there is none. -/
def deliver (top : List Form) : List Frame → List Form → Except ReadError State
  | [], fs => .ok ⟨fs.reverse ++ top, []⟩
  | .gather o line items :: stack, fs => .ok ⟨top, .gather o line (fs.reverse ++ items) :: stack⟩
  | .await wait line :: stack, [] => .ok ⟨top, .await wait line :: stack⟩
  | .await wait line :: stack, f :: _ =>
      match wait with
      | .discard => deliver top stack []
      | .tag => deliver top stack [f]
      | .quote q => deliver top stack [.coll .list line [Form.ofName q.symbolName, f]]
      | .attrs => do
          let attrs ← f.toAttrs
          return ⟨top, .await (.target attrs) line :: stack⟩
      | .target attrs => deliver top stack [f.annotate attrs]

def close (features : List Text) (s : State) (c : Closer) (line : Nat) : Except ReadError State :=
  match s.stack with
  | [] => .error (.unmatched c line)
  | .await .. :: _ => .error (.unexpected c line)
  | .gather o start items :: stack =>
      if o.closer = c then do
        let fs ← Form.ofCollection features o start items.reverse
        deliver s.forms stack fs
      else .error (.unmatched c line)

def push (s : State) (frame : Frame) : State := ⟨s.forms, frame :: s.stack⟩

def step (features : List Text) (s : State) (t : Token) : Except ReadError State :=
  match t.lexeme with
  | .opener o => .ok (push s (.gather o t.line []))
  | .closer c => close features s c t.line
  | .str body => deliver s.forms s.stack [.str (Form.unescape body)]
  | .regex body => deliver s.forms s.stack [.regex body]
  | .char name => deliver s.forms s.stack [.char name]
  | .discard => .ok (push s (.await .discard t.line))
  | .hat => .ok (push s (.await .attrs t.line))
  | .quote q => .ok (push s (.await (.quote q) t.line))
  | .atom text =>
      match Text.after? "##" text with
      | some name => deliver s.forms s.stack [Form.ofName name]
      | none =>
          if text.head? = some (CodePoint.ofChar '#') then .ok (push s (.await .tag t.line))
          else do
            let f ← Form.ofAtom text
            deliver s.forms s.stack [f]

def run (features : List Text) (s : State) (ts : List Token) : Except ReadError State :=
  ts.foldlM (step features) s

@[simp] theorem run_nil (features : List Text) (s : State) : run features s [] = .ok s := rfl

@[simp] theorem run_cons (features : List Text) (s : State) (t : Token) (ts : List Token) :
    run features s (t :: ts) = step features s t >>= fun u => run features u ts := by
  simp [run]

theorem run_append (features : List Text) (s : State) (ts us : List Token) :
    run features s (ts ++ us) = run features s ts >>= fun u => run features u us := by
  simp [run]

def finish (s : State) : Except ReadError (List Form) :=
  match s.stack with
  | [] => .ok s.forms.reverse
  | .gather _ line _ :: _ => .error (.unclosed line)
  | .await _ line :: _ => .error (.unfinished line)

def readTokens (features : List Text) (ts : List Token) : Except ReadError (List Form) :=
  run features State.start ts >>= finish

theorem finish_eq_ok_iff {s : State} {fs : List Form} :
    finish s = .ok fs ↔ s = ⟨fs.reverse, []⟩ := by
  obtain ⟨forms, stack⟩ := s
  cases stack with
  | nil => simp [finish, List.reverse_eq_iff]
  | cons frame stack => cases frame <;> simp [finish]

theorem readTokens_eq_ok_iff {features : List Text} {ts : List Token} {fs : List Form} :
    readTokens features ts = .ok fs ↔ run features State.start ts = .ok ⟨fs.reverse, []⟩ := by
  cases hrun : run features State.start ts with
  | error e => simp [readTokens, hrun, bind, Except.bind]
  | ok s => simp [readTokens, hrun, bind, Except.bind, finish_eq_ok_iff]

end Reader

def Form.readAll (features : List Text) (t : Text) : Except ReadError (List Form) := do
  let tokens ← Token.tokenize t
  Reader.readTokens features tokens

end Docsmith
