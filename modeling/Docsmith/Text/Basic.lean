/-!
# Text as a list of code points

Source text may spell a lone surrogate by its number, so text is kept as a list of
code points and not as a list of characters.  A string literal stands for the text
of its characters, and a character literal for its code point.
-/

namespace Docsmith

structure CodePoint where
  toNat : Nat
  isLt : toNat < 0x110000
deriving DecidableEq, Repr

namespace CodePoint

theorem toNat_char_lt (c : Char) : c.toNat < 0x110000 := by
  have h := c.valid
  unfold Char.toNat
  rcases h with h | h <;> omega

def ofChar (c : Char) : CodePoint := ⟨c.toNat, toNat_char_lt c⟩

instance : Coe Char CodePoint := ⟨ofChar⟩

instance : Inhabited CodePoint := ⟨ofChar ' '⟩

def ofNat (n : Nat) : CodePoint :=
  if h : n < 0x110000 then ⟨n, h⟩ else ⟨0xFFFD, by decide⟩

def isSurrogate (c : CodePoint) : Bool := 0xD800 ≤ c.toNat && c.toNat ≤ 0xDFFF

def inRanges (ranges : List (Nat × Nat)) (c : CodePoint) : Bool :=
  ranges.any fun r => r.1 ≤ c.toNat && c.toNat ≤ r.2

def isAsciiDigit (c : CodePoint) : Bool := 0x30 ≤ c.toNat && c.toNat ≤ 0x39

def isAsciiUpper (c : CodePoint) : Bool := 0x41 ≤ c.toNat && c.toNat ≤ 0x5A

def isAsciiLower (c : CodePoint) : Bool := 0x61 ≤ c.toNat && c.toNat ≤ 0x7A

def isAsciiLetter (c : CodePoint) : Bool := c.isAsciiUpper || c.isAsciiLower

def hexValue? (c : CodePoint) : Option Nat :=
  if c.isAsciiDigit then some (c.toNat - 0x30)
  else if 0x61 ≤ c.toNat && c.toNat ≤ 0x66 then some (c.toNat - 0x61 + 10)
  else if 0x41 ≤ c.toNat && c.toNat ≤ 0x46 then some (c.toNat - 0x41 + 10)
  else none

def isHexDigit (c : CodePoint) : Bool := c.hexValue?.isSome

def isOctalDigit (c : CodePoint) : Bool := 0x30 ≤ c.toNat && c.toNat ≤ 0x37

end CodePoint

abbrev Text := List CodePoint

namespace Text

def ofString (s : String) : Text := s.toList.map CodePoint.ofChar

instance : Coe String Text := ⟨ofString⟩

/-- The characters of a text; a surrogate has none and shows as the replacement character. -/
def toString (t : Text) : String :=
  String.ofList (t.map fun c => if c.isSurrogate then Char.ofNat 0xFFFD else Char.ofNat c.toNat)

def newline : CodePoint := '\n'

def countNewlines (t : Text) : Nat := t.countP (· = newline)

/-! ## Order by code point -/

def compare : Text → Text → Ordering
  | [], [] => .eq
  | [], _ :: _ => .lt
  | _ :: _, [] => .gt
  | a :: s, b :: t =>
      if a.toNat < b.toNat then .lt else if b.toNat < a.toNat then .gt else compare s t

def le (s t : Text) : Bool := (compare s t).isLE

/-! ## Searching and cutting -/

def startsWith (t p : Text) : Bool := p.isPrefixOf t

def endsWith (t p : Text) : Bool := p.isSuffixOf t

def after? : Text → Text → Option Text
  | [], t => some t
  | _ :: _, [] => none
  | a :: p, c :: t => if a = c then after? p t else none

theorem eq_append_of_after? {lead t r : Text} (h : after? lead t = some r) : t = lead ++ r := by
  induction lead generalizing t with
  | nil => simpa [after?] using h
  | cons a p ih =>
      cases t with
      | nil => simp [after?] at h
      | cons c t =>
          by_cases hc : a = c
          · simp only [after?, hc, ↓reduceIte] at h
            simp [hc, ih h]
          · simp [after?, hc] at h

def includes (needle : Text) : Text → Bool
  | [] => needle.isEmpty
  | c :: r => needle.isPrefixOf (c :: r) || includes needle r

def replaceAll (old new : Text) (t : Text) : Text :=
  go 0 t
where
  go : Nat → Text → Text
    | _, [] => []
    | n + 1, _ :: r => go n r
    | 0, c :: r =>
        if !old.isEmpty && old.isPrefixOf (c :: r) then new ++ go (old.length - 1) r
        else c :: go 0 r

def splitOn (sep : CodePoint) : Text → List Text
  | [] => [[]]
  | c :: r =>
      match splitOn sep r with
      | [] => [[c]]
      | piece :: pieces => if c = sep then [] :: piece :: pieces else (c :: piece) :: pieces

def join (sep : Text) : List Text → Text
  | [] => []
  | [t] => t
  | t :: u :: r => t ++ sep ++ join sep (u :: r)

def trimLeft (p : CodePoint → Bool) (t : Text) : Text := t.dropWhile p

def trimRight (p : CodePoint → Bool) (t : Text) : Text := (t.reverse.dropWhile p).reverse

def trim (p : CodePoint → Bool) (t : Text) : Text := trimRight p (trimLeft p t)

def cut? (sep : CodePoint) (t : Text) : Option (Text × Text) :=
  match t.dropWhile (· ≠ sep) with
  | [] => none
  | _ :: r => some (t.takeWhile (· ≠ sep), r)

/-! ## Numerals -/

def ofNat (n : Nat) : Text := n.repr

def ofInt (n : Int) : Text :=
  match n with
  | .ofNat k => ofNat k
  | .negSucc k => '-' :: ofNat (k + 1)

def foldDigits (base : Nat) (ds : List Nat) : Nat := ds.foldl (fun n d => n * base + d) 0

def repeated (n : Nat) (c : CodePoint) : Text := List.replicate n c

def padLeft (width : Nat) (c : CodePoint) (t : Text) : Text :=
  repeated (width - t.length) c ++ t

def hex (n : Nat) : Text := (Nat.toDigits 16 n).map CodePoint.ofChar

end Text

end Docsmith
