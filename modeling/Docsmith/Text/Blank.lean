import Docsmith.Text.Basic

/-!
# Blank code points

The code points that count as white space: those whose bidirectional class is a
separator or white space, and those of general category `Zs`.
-/

namespace Docsmith

def blankRanges : List (Nat × Nat) :=
  [(0x9, 0xD), (0x1C, 0x20), (0x85, 0x85), (0xA0, 0xA0), (0x1680, 0x1680), (0x2000, 0x200A),
   (0x2028, 0x2029), (0x202F, 0x202F), (0x205F, 0x205F), (0x3000, 0x3000)]

def CodePoint.isBlank (c : CodePoint) : Bool := c.inRanges blankRanges

def Text.strip (t : Text) : Text := t.trim CodePoint.isBlank

end Docsmith
