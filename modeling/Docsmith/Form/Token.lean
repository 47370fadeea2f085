import Docsmith.Form.Label
import Docsmith.Text.Blank

/-!
# Tokens of source text

Source text is cut from left to right into pieces: gaps, which separate, and lexemes.
Every piece has a text, and the texts of the pieces, one after the other, are the
source text up to the first place where no piece begins.
-/

namespace Docsmith

inductive Opener where
  | paren
  | bracket
  | brace
  | setBrace
  | fnParen
  | conditional
  | splice
deriving DecidableEq, Repr

inductive Closer where
  | paren
  | bracket
  | brace
deriving DecidableEq, Repr

inductive QuoteMark where
  | quote
  | backquote
  | unquote
  | unquoteSplicing
  | deref
  | var
deriving DecidableEq, Repr

namespace Opener

def text : Opener → Text
  | .paren => "("
  | .bracket => "["
  | .brace => "\x7b"
  | .setBrace => "#\x7b"
  | .fnParen => "#("
  | .conditional => "#?("
  | .splice => "#?@("

def closer : Opener → Closer
  | .paren | .fnParen | .conditional | .splice => .paren
  | .bracket => .bracket
  | .brace | .setBrace => .brace

end Opener

def Closer.text : Closer → Text
  | .paren => ")"
  | .bracket => "]"
  | .brace => "\x7d"

namespace QuoteMark

def text : QuoteMark → Text
  | .quote => "'"
  | .backquote => "`"
  | .unquote => "~"
  | .unquoteSplicing => "~@"
  | .deref => "@"
  | .var => "#'"

def symbolName : QuoteMark → Text
  | .quote => "quote"
  | .backquote => "syntax-quote"
  | .unquote => "unquote"
  | .unquoteSplicing => "unquote-splicing"
  | .deref => "deref"
  | .var => "var"

end QuoteMark

inductive Lexeme where
  | str (body : Text)
  | regex (body : Text)
  | char (name : Text)
  | opener (o : Opener)
  | closer (c : Closer)
  | discard
  | quote (q : QuoteMark)
  | hat
  | atom (text : Text)
deriving DecidableEq, Repr

def Lexeme.text : Lexeme → Text
  | .str body => "\"" ++ body ++ "\""
  | .regex body => "#\"" ++ body ++ "\""
  | .char name => '\\' :: name
  | .opener o => o.text
  | .closer c => c.text
  | .discard => "#_"
  | .quote q => q.text
  | .hat => "^"
  | .atom text => text

inductive Piece where
  | blank (run : Text)
  | comment (body : Text)
  | lexeme (l : Lexeme)
deriving DecidableEq, Repr

def Piece.text : Piece → Text
  | .blank run => run
  | .comment body => ';' :: body
  | .lexeme l => l.text

namespace CodePoint

def isGap (c : CodePoint) : Bool := c.isBlank || c = ','

/-- What an atom is made of: anything but gaps, delimiters, the quotation mark, the
semicolon and the backslash. -/
def isAtom (c : CodePoint) : Bool :=
  !(c.isGap || c = ';' || c = '(' || c = ')' || c = '[' || c = ']' || c = '\x7b' || c = '\x7d'
    || c = '"' || c = '\\')

end CodePoint

namespace Piece

/-- The body up to the first quotation mark that is not escaped, and what follows the mark. -/
def quotedBody? : Text → Option (Text × Text)
  | [] => none
  | c :: r =>
      if c = '"' then some ([], r)
      else if c = '\\' then
        match r with
        | [] => none
        | d :: s => (quotedBody? s).map fun (body, rest) => (c :: d :: body, rest)
      else (quotedBody? r).map fun (body, rest) => (c :: body, rest)

def charNames : List Text :=
  ["newline", "space", "tab", "formfeed", "backspace", "return"]

/-- How many code points after the backslash belong to a character: a name, a number by
four hexadecimal or by one to three octal digits, or else any one code point. -/
def charLength (t : Text) : Nat :=
  match charNames.find? (·.isPrefixOf t) with
  | some name => name.length
  | none =>
      match t with
      | [] => 0
      | c :: r =>
          if c = 'u' && 4 ≤ r.length && (r.take 4).all CodePoint.isHexDigit then 5
          else if c = 'o' then 1 + ((r.take 3).takeWhile CodePoint.isOctalDigit).length
          else 1

def atomPiece (t : Text) : Piece × Text :=
  (.lexeme (.atom (t.takeWhile CodePoint.isAtom)), t.dropWhile CodePoint.isAtom)

def signed : List (Text × Lexeme) :=
  [("?@(", .opener .splice), ("?(", .opener .conditional), ("\x7b", .opener .setBrace),
   ("(", .opener .fnParen), ("_", .discard), ("'", .quote .var)]

def dispatch (r : Text) : Piece × Text :=
  match (Text.after? "\"" r).bind quotedBody? with
  | some (body, rest) => (.lexeme (.regex body), rest)
  | none =>
      match signed.findSome? fun (mark, l) => (Text.after? mark r).map (l, ·) with
      | some (l, rest) => (.lexeme l, rest)
      | none => atomPiece ('#' :: r)

def singles : Table CodePoint Lexeme :=
  [('(', .opener .paren), ('[', .opener .bracket), ('\x7b', .opener .brace),
   (')', .closer .paren), (']', .closer .bracket), ('\x7d', .closer .brace),
   ('\'', .quote .quote), ('`', .quote .backquote), ('~', .quote .unquote),
   ('@', .quote .deref), ('^', .hat)]

/-- The first piece of a text and the rest.  There is none at the end, at a string that
is not closed, and at a backslash that ends the text. -/
def next? (t : Text) : Option (Piece × Text) :=
  match t with
  | [] => none
  | c :: r =>
      if c.isGap then some (.blank (t.takeWhile CodePoint.isGap), t.dropWhile CodePoint.isGap)
      else if c = ';' then
        some (.comment (r.takeWhile (· ≠ Text.newline)), r.dropWhile (· ≠ Text.newline))
      else if c = '"' then (quotedBody? r).map fun (body, rest) => (.lexeme (.str body), rest)
      else if c = '\\' then
        if r.isEmpty then none
        else some (.lexeme (.char (r.take (charLength r))), r.drop (charLength r))
      else if c = '#' then some (dispatch r)
      else if let some rest := Text.after? "~@" t then
        some (.lexeme (.quote .unquoteSplicing), rest)
      else if let some l := singles.get? c then some (.lexeme l, r)
      else some (atomPiece t)

/-! ## Nothing is lost -/

theorem quotedBody?_append {t body rest : Text} (h : quotedBody? t = some (body, rest)) :
    body ++ CodePoint.ofChar '"' :: rest = t := by
  fun_induction quotedBody? t generalizing body rest with
  | case1 => simp at h
  | case2 r => simp_all
  | case3 => simp at h
  | case4 d s _ ih =>
      obtain ⟨⟨b, u⟩, hb, he⟩ := Option.map_eq_some_iff.1 h
      simp only [Prod.mk.injEq] at he
      obtain ⟨rfl, rfl⟩ := he
      simp [ih hb]
  | case5 c r _ _ ih =>
      obtain ⟨⟨b, u⟩, hb, he⟩ := Option.map_eq_some_iff.1 h
      simp only [Prod.mk.injEq] at he
      obtain ⟨rfl, rfl⟩ := he
      simp [ih hb]

theorem text_atomPiece_append (t : Text) : (atomPiece t).1.text ++ (atomPiece t).2 = t := by
  simp [atomPiece, text, Lexeme.text]

theorem text_signed : ∀ e ∈ signed, e.2.text = CodePoint.ofChar '#' :: e.1 := by decide

theorem text_dispatch_append (r : Text) :
    (dispatch r).1.text ++ (dispatch r).2 = CodePoint.ofChar '#' :: r := by
  unfold dispatch
  split
  case h_1 hb =>
    obtain ⟨u, hu, hb⟩ := Option.bind_eq_some_iff.1 hb
    rw [Text.eq_append_of_after? hu, ← quotedBody?_append hb]
    simp [text, Lexeme.text, Text.ofString]
  case h_2 =>
    split
    case h_1 hs =>
      obtain ⟨e, he, hs⟩ := List.exists_of_findSome?_eq_some hs
      obtain ⟨u, hu, hs⟩ := Option.map_eq_some_iff.1 hs
      cases hs
      rw [Text.eq_append_of_after? hu]
      simp [text, text_signed e he]
    case h_2 => exact text_atomPiece_append _

theorem text_singles : ∀ e ∈ singles, e.2.text = [e.1] := by decide

theorem text_of_singles {c : CodePoint} {l : Lexeme} (h : singles.get? c = some l) :
    l.text = [c] := by
  obtain ⟨e, he, rfl⟩ := Option.map_eq_some_iff.1 h
  have hc : e.1 = c := by simpa using List.find?_some he
  rw [text_singles e (List.mem_of_find?_eq_some he), hc]

theorem text_append_of_next? {t : Text} {p : Piece} {rest : Text} (h : next? t = some (p, rest)) :
    p.text ++ rest = t := by
  unfold next? at h
  split at h
  case h_1 => simp at h
  case h_2 c r =>
    split at h
    · simp only [Option.some.injEq, Prod.mk.injEq] at h
      obtain ⟨rfl, rfl⟩ := h
      simp [text]
    split at h
    case isTrue hc =>
      simp only [Option.some.injEq, Prod.mk.injEq] at h
      obtain ⟨rfl, rfl⟩ := h
      simp [text, hc]
    split at h
    case isTrue hq =>
      obtain ⟨⟨b, u⟩, hb, he⟩ := Option.map_eq_some_iff.1 h
      simp only [Prod.mk.injEq] at he
      obtain ⟨rfl, rfl⟩ := he
      simp [text, Lexeme.text, Text.ofString, quotedBody?_append hb, hq]
    split at h
    case isTrue hb =>
      split at h
      · simp at h
      · simp only [Option.some.injEq, Prod.mk.injEq] at h
        obtain ⟨rfl, rfl⟩ := h
        simp [text, Lexeme.text, hb]
    split at h
    case isTrue hn =>
      simp only [Option.some.injEq] at h
      have hd := text_dispatch_append r
      rw [h] at hd
      rw [hd, hn]
    split at h
    case h_1 ha =>
      simp only [Option.some.injEq, Prod.mk.injEq] at h
      obtain ⟨rfl, rfl⟩ := h
      rw [Text.eq_append_of_after? ha]
      rfl
    split at h
    case h_1 hs =>
      simp only [Option.some.injEq, Prod.mk.injEq] at h
      obtain ⟨rfl, rfl⟩ := h
      simp [text, text_of_singles hs]
    case h_2 =>
      simp only [Option.some.injEq] at h
      have ha := text_atomPiece_append (c :: r)
      rwa [h] at ha

theorem text_atomPiece_ne_nil {c : CodePoint} {r : Text} (h : c.isAtom = true) :
    (atomPiece (c :: r)).1.text ≠ [] := by
  simp [atomPiece, text, Lexeme.text, h]

theorem text_dispatch_ne_nil (r : Text) : (dispatch r).1.text ≠ [] := by
  unfold dispatch
  split
  · simp [text, Lexeme.text, Text.ofString]
  · split
    case h_1 hs =>
      obtain ⟨e, he, hs⟩ := List.exists_of_findSome?_eq_some hs
      obtain ⟨u, hu, hs⟩ := Option.map_eq_some_iff.1 hs
      cases hs
      simp [text, text_signed e he]
    case h_2 => exact text_atomPiece_ne_nil (by decide)

theorem isAtom_of_singles {c : CodePoint} (hg : ¬c.isGap = true) (hc : c ≠ ';')
    (hq : c ≠ '"') (hb : c ≠ '\\') (h : singles.get? c = none) : c.isAtom = true := by
  have hbrackets : c ≠ '(' ∧ c ≠ '[' ∧ c ≠ '\x7b' ∧ c ≠ ')' ∧ c ≠ ']' ∧ c ≠ '\x7d' := by
    refine ⟨?_, ?_, ?_, ?_, ?_, ?_⟩ <;>
      · rintro rfl
        revert h
        decide
  obtain ⟨h1, h2, h3, h4, h5, h6⟩ := hbrackets
  simp [CodePoint.isAtom, hg, hc, hq, hb, h1, h2, h3, h4, h5, h6]

theorem text_ne_nil_of_next? {t : Text} {p : Piece} {rest : Text} (h : next? t = some (p, rest)) :
    p.text ≠ [] := by
  unfold next? at h
  split at h
  case h_1 => simp at h
  case h_2 c r =>
    split at h
    case isTrue hg =>
      simp only [Option.some.injEq, Prod.mk.injEq] at h
      obtain ⟨rfl, rfl⟩ := h
      simp [text, hg]
    case isFalse hg =>
      split at h
      case isTrue =>
        simp only [Option.some.injEq, Prod.mk.injEq] at h
        obtain ⟨rfl, rfl⟩ := h
        simp [text]
      case isFalse hc =>
        split at h
        case isTrue =>
          obtain ⟨⟨b, u⟩, hb, he⟩ := Option.map_eq_some_iff.1 h
          simp only [Prod.mk.injEq] at he
          obtain ⟨rfl, rfl⟩ := he
          simp [text, Lexeme.text, Text.ofString]
        case isFalse hq =>
          split at h
          case isTrue =>
            split at h
            · simp at h
            · simp only [Option.some.injEq, Prod.mk.injEq] at h
              obtain ⟨rfl, rfl⟩ := h
              simp [text, Lexeme.text]
          case isFalse hb =>
            split at h
            · simp only [Option.some.injEq] at h
              have hd := text_dispatch_ne_nil r
              rwa [h] at hd
            split at h
            · simp only [Option.some.injEq, Prod.mk.injEq] at h
              obtain ⟨rfl, rfl⟩ := h
              decide
            split at h
            case h_1 hs =>
              simp only [Option.some.injEq, Prod.mk.injEq] at h
              obtain ⟨rfl, rfl⟩ := h
              simp [text, text_of_singles hs]
            case h_2 hs =>
              simp only [Option.some.injEq] at h
              have ha := text_atomPiece_ne_nil (r := r)
                (isAtom_of_singles hg hc hq hb (Option.eq_none_iff_forall_ne_some.2 hs))
              rwa [h] at ha

theorem length_lt_of_next? {t : Text} {p : Piece} {rest : Text} (h : next? t = some (p, rest)) :
    rest.length < t.length := by
  have hne := List.length_pos_iff.2 (text_ne_nil_of_next? h)
  have happ := congrArg List.length (text_append_of_next? h)
  simp only [List.length_append] at happ
  omega

def all (t : Text) : List Piece × Text :=
  match h : next? t with
  | none => ([], t)
  | some (p, rest) =>
      have := length_lt_of_next? h
      let (ps, last) := all rest
      (p :: ps, last)
termination_by t.length

end Piece

structure Token where
  lexeme : Lexeme
  line : Nat
deriving DecidableEq, Repr

namespace Token

def ofPieces (line : Nat) : List Piece → List Token
  | [] => []
  | p :: ps =>
      let rest := ofPieces (line + p.text.countNewlines) ps
      match p with
      | .lexeme l => ⟨l, line⟩ :: rest
      | _ => rest

end Token

end Docsmith
