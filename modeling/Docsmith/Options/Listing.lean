import Docsmith.Options.Keys
import Docsmith.Value.Layout

/-!
# Listing options

Options are listed by key, spelled as in project files.
-/

namespace Docsmith

namespace Value

mutual
def mapText (f : Text → Text) : Value → Value
  | .str s => .str (f s)
  | .list items => .list (mapTextItems f items)
  | .tuple items => .tuple (mapTextItems f items)
  | .set items => .set (mapTextItems f items)
  | .dict entries => .dict (mapTextEntries f entries)
  | v => v

def mapTextItems (f : Text → Text) : List Value → List Value
  | [] => []
  | v :: vs => mapText f v :: mapTextItems f vs

def mapTextEntries (f : Text → Text) : List (Value × Value) → List (Value × Value)
  | [] => []
  | (k, v) :: es => (mapText f k, mapText f v) :: mapTextEntries f es
end

end Value

def listedKey (key : Value) : Text := ":" ++ Text.replaceAll "_" "-" (dropColons key.text)

def unlistedKeys : List Text := ["exception_handler", "git_commit"]

def listedOptions (skip : List Text) (d : Dict) : Table Text Value :=
  let skipped := skip.map fun k => normalKey (.str k)
  let shown := d.filter fun e => !skipped.contains (normalKey e.1)
  let table : Table Text Value :=
    shown.foldl (fun t e => Table.insert (listedKey e.1) e.2 t) []
  List.mergeSort table fun a b => Text.le a.1 b.1

def optionsListing (skip : List Text) (d : Dict) : Except Failure Text :=
  let table := listedOptions skip d
  if (d.all fun e => e.1.writable) && table.all fun e => e.2.writable then
    .ok (Value.dict (table.map fun e => (.str e.1, e.2))).layout
  else .error (.value .integerTooLong)

end Docsmith
