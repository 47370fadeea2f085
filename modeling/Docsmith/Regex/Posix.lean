import Docsmith.Regex.Parser

/-!
# Property classes

Patterns in source files may name a property class, such as `\p{Upper}` or, negated,
`\P{Digit}`.  A class that is known becomes an explicit set; inside a set its members
are put in place of it, unless it is negated.  All else stays as it is.
-/

namespace Docsmith.Regex

def propertyClasses : Table Text Text :=
  [("Lower", "a-z"), ("Upper", "A-Z"), ("ASCII", "\\x00-\\x7F"), ("Alpha", "a-zA-Z"),
   ("Digit", "0-9"), ("Alnum", "a-zA-Z0-9"), ("Punct", "!-/:-@\\[-`\x7b-~"), ("Graph", "!-~"),
   ("Print", " -~"), ("Blank", " \\t"), ("Cntrl", "\\x00-\\x1F\\x7F"), ("XDigit", "0-9a-fA-F"),
   ("Space", " \\t\\n\\x0B\\f\\r")]

/-- A known property class at the front of a text: whether it is negated, its members,
and how many code points spell it.  The name may have `Is` before it. -/
def property? (t : Text) : Option (Bool × Text × Nat) := do
  let (negated, r) ←
    ((Text.after? "\\p\x7b" t).map (false, ·)).or ((Text.after? "\\P\x7b" t).map (true, ·))
  let word := r.takeWhile CodePoint.isWord
  let _ ← Text.after? "\x7d" (r.dropWhile CodePoint.isWord)
  let name := match Text.after? "Is" word with
    | some [] | none => word
    | some name => name
  let members ← propertyClasses.get? name
  return (negated, members, word.length + 4)

/-- Where a place lies with respect to a set: outside, right after its bracket, right
after the bracket and a caret, or further inside. -/
inductive SetSite where
  | outside
  | opened
  | caret
  | inside
deriving DecidableEq, Repr

/-- The site after a code point that is not escaped.  A closing bracket right at the
beginning of a set is a member of it. -/
def SetSite.after (c : CodePoint) : SetSite → SetSite
  | .outside => if c = '[' then .opened else .outside
  | .opened => if c = '^' then .caret else .inside
  | .caret => .inside
  | .inside => if c = ']' then .outside else .inside

def SetSite.escaped : SetSite → SetSite
  | .outside => .outside
  | _ => .inside

def SetSite.spell? (negated : Bool) (members : Text) : SetSite → Option Text
  | .outside => some (if negated then "[^" ++ members ++ "]" else "[" ++ members ++ "]")
  | _ => if negated then none else some members

def expandFrom : Nat → SetSite → Text → Text
  | _, _, [] => []
  | skip + 1, site, _ :: r => expandFrom skip site r
  | 0, site, c :: r =>
      if c = '\\' then
        match (property? (c :: r)).bind fun (negated, members, length) =>
            (site.spell? negated members).map (·, length) with
        | some (spelling, length) => spelling ++ expandFrom (length - 1) site.escaped r
        | none => c :: (r.take 1 ++ expandFrom 1 site.escaped r)
      else c :: expandFrom 0 (site.after c) r

def expand (source : Text) : Text := expandFrom 0 .outside source

def compilePosix (source : Text) : Except Fault Regex := compile (expand source)

end Docsmith.Regex
