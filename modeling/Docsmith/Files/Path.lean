import Docsmith.Text.Quoted

/-!
# Paths

A path is a list of names, from the root of the file system or from a directory that is
not said.  Empty names and single points are dropped when a path is read; two points
stay, because what they mean depends on the files.
-/

namespace Docsmith

structure Path where
  absolute : Bool
  names : List Text
deriving DecidableEq, Repr

namespace Path

def ofText (t : Text) : Path :=
  ⟨t.startsWith "/", (Text.splitOn '/' t).filter fun n => !(n.isEmpty || n = ".")⟩

def text (p : Path) : Text :=
  let body := Text.join "/" p.names
  if p.absolute then '/' :: body else if p.names.isEmpty then "." else body

def relative (names : List Text) : Path := ⟨false, names⟩

def join (p q : Path) : Path :=
  if q.absolute then q else ⟨p.absolute, p.names ++ q.names⟩

def child (p : Path) (name : Text) : Path := ⟨p.absolute, p.names ++ [name]⟩

def parent (p : Path) : Path := ⟨p.absolute, p.names.dropLast⟩

def name (p : Path) : Text := (p.names.getLast?).getD []

def splitSuffix (name : Text) : Text × Text :=
  let tail := (name.reverse.takeWhile fun (c : CodePoint) => c ≠ '.').reverse
  let stem := name.take (name.length - tail.length - 1)
  if tail.length < name.length && !tail.isEmpty && !stem.isEmpty then (stem, '.' :: tail)
  else (name, [])

def suffix (p : Path) : Text := (splitSuffix p.name).2

def stem (p : Path) : Text := (splitSuffix p.name).1

def dropSuffix (p : Path) : Path :=
  match p.names.getLast? with
  | none => p
  | some last => ⟨p.absolute, p.names.dropLast ++ [(splitSuffix last).1]⟩

def below? (base p : Path) : Option Path :=
  if base.absolute = p.absolute && base.names.isPrefixOf p.names then
    some (relative (p.names.drop base.names.length))
  else none

def collapse (names : List Text) : List Text :=
  (names.foldl (fun up (n : Text) => if n = ".." then up.drop 1 else n :: up) []).reverse

def resolve (cwd p : Path) : Path := ⟨true, collapse (cwd.join p).names⟩

def common : List Text → List Text → Nat
  | a :: s, b :: t => if a = b then common s t + 1 else 0
  | _, _ => 0

def wayFrom (cwd start p : Path) : Path :=
  let a := (resolve cwd start).names
  let b := (resolve cwd p).names
  let n := common a b
  relative (List.replicate (a.length - n) (Text.ofString "..") ++ b.drop n)

end Path

end Docsmith
