import Docsmith.Text.Printable

/-!
# Quoted text

A text between quotation marks on one line: single marks, unless the text holds a
single and no double mark.  The backslash and the mark are escaped, and so is every
code point that is not printable, by the shortest of three widths.
-/

namespace Docsmith.Text

def numericEscape (c : CodePoint) : Text :=
  if c.toNat < 0x100 then "\\x" ++ padLeft 2 '0' (hex c.toNat)
  else if c.toNat < 0x10000 then "\\u" ++ padLeft 4 '0' (hex c.toNat)
  else "\\U" ++ padLeft 8 '0' (hex c.toNat)

def quotationMark (t : Text) : CodePoint :=
  if t.contains (CodePoint.ofChar '\'') && !t.contains (CodePoint.ofChar '"') then '"' else '\''

def escapeQuoted (mark c : CodePoint) : Text :=
  if c = mark || c = '\\' then ['\\', c]
  else if c = '\t' then "\\t"
  else if c = '\n' then "\\n"
  else if c = '\r' then "\\r"
  else if c.isPrintable then [c]
  else numericEscape c

def quoted (t : Text) : Text :=
  let mark := quotationMark t
  mark :: (t.flatMap (escapeQuoted mark) ++ [mark])

end Docsmith.Text
