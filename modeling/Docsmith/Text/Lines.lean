import Docsmith.Text.Basic

/-!
# Lines

Text that is read from a file has one kind of line end; text inside a model may have
any of the line boundaries.
-/

namespace Docsmith.Text

def normalizeNewlines : Text → Text
  | [] => []
  | c :: r =>
      if c = '\r' then
        match r with
        | d :: s => if d = '\n' then newline :: normalizeNewlines s
                    else newline :: normalizeNewlines (d :: s)
        | [] => [newline]
      else c :: normalizeNewlines r

def isLineBoundary (c : CodePoint) : Bool :=
  (0x0A ≤ c.toNat && c.toNat ≤ 0x0D) || (0x1C ≤ c.toNat && c.toNat ≤ 0x1E)
    || c.toNat = 0x85 || c.toNat = 0x2028 || c.toNat = 0x2029

/-- The lines of a text without their boundaries; a carriage return and a line feed are
one boundary, and a boundary at the end starts no line. -/
def lines (t : Text) : List Text :=
  go [] t
where
  go (line : Text) : Text → List Text
    | [] => if line.isEmpty then [] else [line.reverse]
    | c :: r =>
        if c = '\r' then
          match r with
          | d :: s => if d = '\n' then line.reverse :: go [] s
                      else line.reverse :: go [] (d :: s)
          | [] => [line.reverse]
        else if isLineBoundary c then line.reverse :: go [] r
        else go (c :: line) r

end Docsmith.Text
