import Docsmith.Files.Tree
import Docsmith.Form.ReadError
import Docsmith.Regex.Fault
import Docsmith.Yaml.Cursor

/-!
# Failures

Why an operation gives no result.  Each failure is a cause; its wording is in one place.
-/

namespace Docsmith

inductive ConfigFault where
  | unparsed (file reason : Text)
  | rootNotMapping
  | metadataNotMapping
  | badExclusion (literal reason : Text)
  | badRegex (file reason : Text)
  | notMap (file : Text)
  | noProject (file : Text)
deriving DecidableEq, Repr

def ConfigFault.message : ConfigFault → Text
  | .unparsed file reason => "Failed to parse " ++ file ++ ": " ++ reason
  | .rootNotMapping => ".codox.yml must contain a mapping at the root"
  | .metadataNotMapping => "metadata must be a mapping"
  | .badExclusion literal reason =>
      "Invalid exclude-vars pattern " ++ literal ++ ": " ++ reason
  | .badRegex file reason => "Invalid regular expression in " ++ file ++ ": " ++ reason
  | .notMap file => file ++ " must contain a map"
  | .noProject file => file ++ " does not contain a defproject form"

structure ProcessResult where
  exit : Int
  out : Text
  err : Text
deriving DecidableEq, Repr

inductive CommitFault where
  | notRun (reason : Text)
  | failed (result : ProcessResult)
deriving DecidableEq, Repr

def CommitFault.message : CommitFault → Text
  | .notRun reason => "Error getting git commit: " ++ reason
  | .failed _ => "Error getting git commit"

inductive BadValue where
  | patternMapping (literal : Text)
  | exclusion (literal : Text)
  | language (literal : Text) (known : List Text)
  | integerTooLong
deriving DecidableEq, Repr

def BadValue.message : BadValue → Text
  | .patternMapping literal => "Pattern mapping must contain a 'regex' string: " ++ literal
  | .exclusion literal => "Exclusion pattern must be a regular expression: " ++ literal
  | .language literal known =>
      "Unsupported language " ++ literal ++ " (known: " ++ Text.join ", " known ++ ")"
  | .integerTooLong => integerTooLongToWriteMessage

inductive Failure where
  | read (e : ReadError)
  | regex (f : Regex.Fault)
  | config (f : ConfigFault)
  | source (path reason : Text)
  | writer (identifier reason : Text)
  | commit (f : CommitFault)
  | provenance (file : Text) (roots : List Text)
  | value (v : BadValue)
  | file (f : FileFault)
  | decoding (e : Utf8.DecodeError)
  | encoding (e : Utf8.EncodeError)
  | entryPoint (base : Text)
  | notLoaded (reason : Text)
  | scalar (f : Yaml.Fault)
  | noHome
  | wrongKind
  | noAttribute
deriving DecidableEq, Repr

namespace Failure

def ofText : TextFault → Failure
  | .file f => .file f
  | .bytes e => .decoding e

def ofName : NameFault → Failure
  | .null => .file .unusableName
  | .unencodable e => .encoding e

def ofHome : HomeFault → Failure
  | .name fault => ofName fault
  | .missing => .noHome

def message : Failure → Text
  | .read e => e.message
  | .regex f => f.message
  | .config f => f.message
  | .source path reason =>
      "Could not read source " ++ path ++ (if reason.isEmpty then [] else Text.ofString ": " ++ reason)
  | .writer identifier reason =>
      "Could not resolve codox writer " ++ identifier.quoted
        ++ (if reason.isEmpty then [] else Text.ofString ": " ++ reason)
  | .commit f => f.message
  | .provenance name roots =>
      name ++ " not found under " ++
        if roots.isEmpty then Text.ofString "no roots" else Text.join ", " roots
  | .value v => v.message
  | .file f => f.message
  | .decoding e => e.message
  | .encoding e => e.message
  | .entryPoint base => "Entry point must provide a " ++ base ++ " subclass or factory"
  | .notLoaded reason => reason
  | .scalar (.badScalar reason) => reason
  | .noHome => "Could not determine home directory."
  | .scalar _ | .wrongKind | .noAttribute => []

/-- A failure of the documentation run itself, as opposed to one of the values it was
given or of the machine. -/
def isFatal : Failure → Bool
  | .config _ | .source .. | .writer .. | .commit _ => true
  | _ => false

/-- A failure that lies in a value: a text that cannot be read, a pattern mode, or a
value of the wrong form. -/
def isBadValue : Failure → Bool
  | .read _ | .value _ | .decoding _ | .encoding _ | .regex .clashingModes
  | .regex (.unencodable _)
  | .scalar (.badScalar _) | .file .unusableName | .file .unusableDirectory => true
  | _ => false

end Failure

end Docsmith
