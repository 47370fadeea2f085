import Docsmith.Failure
import Docsmith.Output.Writer
import Docsmith.Source.Dialect
import Docsmith.Text.Case

/-!
# Readers and writers by name

What is built in is found first; then the extensions that are installed are searched.
Names are compared without regard to case.
-/

namespace Docsmith

inductive Provision (α : Type) where
  | component (a : α)
  | unsuitable
  | unloadable (reason : Text)

structure Extension (α : Type) where
  name : Text
  provision : Provision α

namespace Extension

/-- The built-in names, followed by those of extensions that are not among them. -/
def names {α : Type} (builtIn : List (Text × α)) (installed : List (Extension α)) : List Text :=
  installed.foldl (fun known e => if known.contains e.name then known else known ++ [e.name])
    (builtIn.map Prod.fst)

def find? {α : Type} (installed : List (Extension α)) (key : Text) : Option (Extension α) :=
  installed.find? fun e => Text.lower e.name = key

def load {α : Type} (e : Extension α) (kind : Text) : Except Failure α :=
  match e.provision with
  | .component a => .ok a
  | .unsuitable => .error (.entryPoint kind)
  | .unloadable reason => .error (.notLoaded reason)

end Extension

def resolveReader {α : Type} (builtIn : List (Text × α)) (installed : List (Extension α))
    (language : Value) : Except Failure α :=
  if !language.writable then .error (.value .integerTooLong)
  else
    let key := Text.lower language.text
    match builtIn.lookup key with
    | some a => .ok a
    | none =>
        match Extension.find? installed key with
        | some e => e.load "NamespaceReader"
        | none =>
            .error (.value (.language language.literal (Extension.names builtIn installed)))

def defaultWriter : Text := "html"

/-- The name of a writer in lower case; what counts as false asks for the default. -/
def writerKey (identifier : Value) : Except Failure Text :=
  match identifier with
  | .str s => .ok (if s.isEmpty then defaultWriter else Text.lower s)
  | v => if v.truthy then .error .noAttribute else .ok defaultWriter

def resolveWriter {α : Type} (builtIn : List (Text × α)) (installed : List (Extension α))
    (identifier : Value) : Except Failure α := do
  let key ← writerKey identifier
  match builtIn.lookup key with
  | some a => return a
  | none =>
      match Extension.find? installed key with
      | some e => (e.load "Writer").mapError fun f => .writer key f.message
      | none =>
          .error (.writer key
            ("known writers: " ++ Text.join ", " (Extension.names builtIn installed)))

def builtInReaders : List (Text × Dialect) := Dialect.all.map fun d => (d.name, d)

def builtInWriters : List (Text × Writer) := [(defaultWriter, .html), ("json", .json)]

end Docsmith
