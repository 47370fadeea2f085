import Docsmith.Files.Path
import Docsmith.Table
import Docsmith.Text.Lines
import Docsmith.Text.Utf8

/-!
# File trees

The files and directories of a machine as a value.  Places are lists of names from the
root of the file system, which is a directory.  A path is walked name by name, so two
points go up from a directory that has to exist.
-/

namespace Docsmith

inductive Entry where
  | file (bytes : Bytes)
  | directory
deriving DecidableEq, Repr

inductive FileFault where
  | notFound (path : Text)
  | notDirectory (path : Text)
  | isDirectory (path : Text)
  | alreadyExists (path : Text)
  /-- The name of a file holds the null character, which no file has. -/
  | unusableName
  /-- The same of a directory that is to be created. -/
  | unusableDirectory
deriving DecidableEq, Repr

def FileFault.message : FileFault → Text
  | .notFound p => "[Errno 2] No such file or directory: " ++ p.quoted
  | .notDirectory p => "[Errno 20] Not a directory: " ++ p.quoted
  | .isDirectory p => "[Errno 21] Is a directory: " ++ p.quoted
  | .alreadyExists p => "[Errno 17] File exists: " ++ p.quoted
  | .unusableName => "embedded null byte"
  | .unusableDirectory => "mkdir: embedded null character in path"

def hasNull (name : Text) : Bool := name.any fun c => c.toNat = 0

def Path.hasNull (p : Path) : Bool := p.names.any Docsmith.hasNull

/-- Why a path is not one of a file, whatever files there are. -/
inductive NameFault where
  | null
  | unencodable (e : Utf8.EncodeError)
deriving DecidableEq, Repr

namespace Path

/-- The names on the way, in reverse, one step up.  From a directory that is not said the
way up is kept. -/
def stepUp (absolute : Bool) : List Text → List Text
  | [] => if absolute then [] else [".."]
  | n :: up => if n = ".." then ".." :: n :: up else up

def faultFrom (absolute : Bool) : List Text → List Text → Option NameFault
  | _, [] => none
  | up, n :: rest =>
      if n = ".." then faultFrom absolute (stepUp absolute up) rest
      else
        match Utf8.nameError? (text ⟨absolute, (n :: up).reverse⟩) with
        | some e => some (.unencodable e)
        | none => if Docsmith.hasNull n then some .null else faultFrom absolute (n :: up) rest

def fault? (p : Path) : Option NameFault := faultFrom p.absolute [] p.names

def resolve? (cwd p : Path) : Except NameFault Path :=
  match p.fault? with
  | some fault => .error fault
  | none => .ok (resolve cwd p)

end Path

/-! ## Homes -/

abbrev Homes := Table Text Path

inductive HomeFault where
  | name (fault : NameFault)
  | missing
deriving DecidableEq, Repr

namespace Path

def user? (p : Path) : Option Text :=
  match p.names with
  | (c :: user) :: _ => if c = '~' && !p.absolute then some user else none
  | _ => none

def home? (homes : Homes) (user : Text) : Except HomeFault Path :=
  match Utf8.nameError? user with
  | some e => .error (.name (.unencodable e))
  | none =>
      if Docsmith.hasNull user then .error (.name .null)
      else match homes.get? user with
      | some home => .ok home
      | none => .error .missing

def expand? (homes : Homes) (p : Path) : Except HomeFault Path :=
  match p.user? with
  | none => .ok p
  | some user => (home? homes user).map fun home => home.join (relative p.names.tail)

end Path

structure FileTree where
  entries : Table (List Text) Entry
deriving DecidableEq, Repr

namespace FileTree

def entry? (t : FileTree) (place : List Text) : Option Entry :=
  if place.isEmpty then some .directory else t.entries.get? place

inductive Stop where
  | missing
  | throughFile
deriving DecidableEq, Repr

def walkFrom (t : FileTree) : List Text → List Text → Except Stop (List Text)
  | here, [] => .ok here
  | here, n :: ns =>
      if t.entry? here ≠ some .directory then
        .error (if (t.entry? here).isSome then .throughFile else .missing)
      else if n = ".." then walkFrom t here.dropLast ns
      else walkFrom t (here ++ [n]) ns

/-- The place that a path leads to; it need not hold anything. -/
def place (t : FileTree) (cwd p : Path) : Except Stop (List Text) :=
  walkFrom t [] (cwd.join p).names

def lookup? (t : FileTree) (cwd p : Path) : Option Entry :=
  match t.place cwd p with
  | .ok place => t.entry? place
  | .error _ => none

def isFile (t : FileTree) (cwd p : Path) : Bool :=
  match t.lookup? cwd p with
  | some (.file _) => true
  | _ => false

def isDirectory (t : FileTree) (cwd p : Path) : Bool :=
  match t.lookup? cwd p with
  | some .directory => true
  | _ => false

def exists? (t : FileTree) (cwd p : Path) : Bool := (t.lookup? cwd p).isSome

def Stop.fault (p : Path) : Stop → FileFault
  | .missing => .notFound p.text
  | .throughFile => .notDirectory p.text

def read (t : FileTree) (cwd p : Path) : Except FileFault Bytes :=
  if p.hasNull then .error .unusableName
  else match t.place cwd p with
  | .error stop => .error (stop.fault p)
  | .ok place =>
      match t.entry? place with
      | some (.file bytes) => .ok bytes
      | some .directory => .error (.isDirectory p.text)
      | none => .error (.notFound p.text)

def put (t : FileTree) (place : List Text) (e : Entry) : FileTree := ⟨t.entries.insert place e⟩

def write (t : FileTree) (cwd p : Path) (bytes : Bytes) : Except FileFault FileTree :=
  if p.hasNull then .error .unusableName
  else match t.place cwd p with
  | .error stop => .error (stop.fault p)
  | .ok place =>
      match t.entry? place with
      | some .directory => .error (.isDirectory p.text)
      | some (.file _) => .ok (t.put place (.file bytes))
      | none => .ok (t.put place (.file bytes))

def append (t : FileTree) (place : List Text) (bytes : Bytes) : FileTree :=
  match t.entry? place with
  | some (.file old) => t.put place (.file (old ++ bytes))
  | _ => t

def openLog (t : FileTree) (p : Path) : Except FileFault FileTree :=
  match t.entry? p.names with
  | some (.file _) => .ok t
  | _ => t.write ⟨true, []⟩ p []

def makeDirectory (t : FileTree) (cwd p : Path) : Except FileFault FileTree :=
  if p.hasNull then .error .unusableDirectory
  else match t.place cwd p with
  | .error stop => .error (stop.fault p)
  | .ok place =>
      match t.entry? place with
      | some _ => .error (.alreadyExists p.text)
      | none => .ok (t.put place .directory)

def ensureDirectory (t : FileTree) (cwd p : Path) : Except FileFault FileTree :=
  go p.names.length t p
where
  settle (t : FileTree) (p : Path) : FileFault → Except FileFault FileTree := fun fault =>
    if t.isDirectory cwd p then .ok t else .error fault
  go : Nat → FileTree → Path → Except FileFault FileTree
    | fuel, t, p =>
        match t.makeDirectory cwd p with
        | .ok t => .ok t
        | .error (.notFound q) =>
            match fuel with
            | 0 => .error (.notFound q)
            | fuel + 1 => do
                let t ← go fuel t p.parent
                match t.makeDirectory cwd p with
                | .ok t => .ok t
                | .error (.notFound q) => .error (.notFound q)
                | .error fault => settle t p fault
        | .error fault => settle t p fault

def addDirectory (t : FileTree) (place : List Text) : FileTree :=
  (List.range place.length).foldl
    (fun t n =>
      let above := place.take (n + 1)
      if (t.entry? above).isSome then t else t.put above .directory) t

def addFile (t : FileTree) (place : List Text) (bytes : Bytes) : FileTree :=
  (t.addDirectory place.dropLast).put place (.file bytes)

def remove (t : FileTree) (place : List Text) : FileTree :=
  ⟨t.entries.filter fun e => !place.isPrefixOf e.1⟩

def filesBelow (t : FileTree) (place : List Text) : List (List Text) :=
  t.entries.filterMap fun
    | (q, .file _) => if place.isPrefixOf q && place.length < q.length then
        some (q.drop place.length) else none
    | (_, .directory) => none

end FileTree

inductive TextFault where
  | file (fault : FileFault)
  | bytes (fault : Utf8.DecodeError)
deriving DecidableEq, Repr

def TextFault.message : TextFault → Text
  | .file fault => fault.message
  | .bytes fault => fault.message

def FileTree.readText (t : FileTree) (cwd p : Path) : Except TextFault Text := do
  let bytes ← (t.read cwd p).mapError .file
  let text ← (Utf8.decode bytes).mapError .bytes
  return text.normalizeNewlines

end Docsmith
