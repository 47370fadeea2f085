import Docsmith.Form.Token

/-!
# Why reading fails
-/

namespace Docsmith

inductive ReadError where
  | unreadable (c : CodePoint) (line : Nat)
  | unmatched (c : Closer) (line : Nat)
  | unexpected (c : Closer) (line : Nat)
  | unfinished (line : Nat)
  | unclosed (line : Nat)
  | oddMap (line : Nat)
  | oddConditional (line : Nat)
  | featureNotKeyword (line : Nat)
  | spliceNotSequence (line : Nat)
  | integerTooLong (digits : Nat)
  | integerTooLongToWrite
deriving DecidableEq, Repr

def integerTooLongMessage (digits : Nat) : Text :=
  "Exceeds the limit (4300 digits) for integer string conversion: value has "
    ++ Text.ofNat digits
    ++ " digits; use sys.set_int_max_str_digits() to increase the limit"

def integerTooLongToWriteMessage : Text :=
  "Exceeds the limit (4300 digits) for integer string conversion; "
    ++ "use sys.set_int_max_str_digits() to increase the limit"

namespace ReadError

/-- The line of a fault in the text.  The length of an integer has none. -/
def line? : ReadError → Option Nat
  | unreadable _ l | unmatched _ l | unexpected _ l | unfinished l | unclosed l | oddMap l
  | oddConditional l | featureNotKeyword l | spliceNotSequence l => some l
  | integerTooLong _ | integerTooLongToWrite => none

def summary : ReadError → Text
  | unreadable c _ => "Unreadable character " ++ Text.quoted [c]
  | unmatched c _ => "Unmatched delimiter " ++ c.text
  | unexpected c _ => "Unexpected delimiter " ++ c.text
  | unfinished _ => "EOF while reading"
  | unclosed line => "EOF while reading, starting at line " ++ Text.ofNat line
  | oddMap _ => "Map literal must contain an even number of forms"
  | oddConditional _ => "Reader conditional requires an even number of forms"
  | featureNotKeyword _ => "Reader conditional feature must be a keyword"
  | spliceNotSequence _ => "Spliced reader conditional requires a sequence"
  | integerTooLong digits => integerTooLongMessage digits
  | integerTooLongToWrite => integerTooLongToWriteMessage

def message (e : ReadError) : Text :=
  match e.line? with
  | some line => e.summary ++ " (line " ++ Text.ofNat line ++ ")"
  | none => e.summary

end ReadError

def Token.tokenize (t : Text) : Except ReadError (List Token) :=
  match Piece.all t with
  | (pieces, []) => .ok (ofPieces 1 pieces)
  | (pieces, c :: _) =>
      .error (.unreadable c (1 + Text.countNewlines (pieces.flatMap Piece.text)))

end Docsmith
