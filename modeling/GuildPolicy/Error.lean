import GuildPolicy.AccessVector.Merge
import GuildPolicy.Module.Compile
import GuildPolicy.Text.Utf8

namespace GuildPolicy

open GuildPolicy.Syntax

inductive SnapshotKind
  | module
  | guild
  deriving DecidableEq

def SnapshotKind.text : SnapshotKind → String
  | .module => "Module"
  | .guild => "Guild"

/-- Data that can be read but does not hold together. -/
inductive StructureFault
  | emptyModuleName
  | emptyTypeName (module : String)
  | repeatedType (module type : String)
  /-- A wildcard table with more entries than there are types. -/
  | wildcardTooLong (module : String) (listed declared : Nat)
  | undeclaredTarget (module : String) (kind : RuleKind) (id : TypeId)
  /-- A type index whose two directions differ in size. -/
  | indexSizes (names ids : Nat)
  | notInReverseIndex (name : String) (id : TypeId)
  | unknownType (kind : RuleKind) (id : TypeId)
  | unknownPair (kind : RuleKind) (pair : TypePair)
  /-- A module that is stored under another name than its own. -/
  | storedUnder (key name : String)
  | wrongKind (expected found : SnapshotKind)
  | trailingBytes (count : Nat)
  /-- A module whose name cannot be the name of a file. -/
  | notFileName (module : String)
  deriving DecidableEq

def StructureFault.message : StructureFault → String
  | .emptyModuleName => "module name must not be empty"
  | .emptyTypeName m => s!"module {m}: empty type name"
  | .repeatedType m t => s!"module {m}: type '{t}' is declared twice"
  | .wildcardTooLong m listed declared =>
    s!"module {m}: wildcard tables reference {listed} types but only {declared} are declared"
  | .undeclaredTarget m kind id =>
    s!"module {m}: " ++ kind.text ++ s!"_types_on_targets references undeclared type id {id}"
  | .indexSizes names ids => s!"type index has {names} names but {ids} ids"
  | .notInReverseIndex name id => s!"type '{name}' [@{id}] is missing from the reverse index"
  | .unknownType kind id => kind.text ++ s!"_types references unknown type id {id}"
  | .unknownPair kind pair =>
    kind.text ++ s!"_types_on_targets references unknown type pair ({pair.subject}, {pair.target})"
  | .storedUnder key name => s!"module stored as '{key}' is named '{name}'"
  | .wrongKind expected found =>
    "expected a " ++ expected.text ++ " snapshot, found " ++ found.text
  | .trailingBytes n => s!"{n} trailing bytes after snapshot body"
  | .notFileName m => s!"module name '{m}' cannot be used as a snapshot file name"

inductive DecodeFault
  | outOfBytes
  | invalidKind (found : UInt32)
  /-- A byte that says neither that a value is absent nor that it is present. -/
  | invalidTag (found : UInt8)
  | invalidText (fault : Text.Utf8Fault)
  deriving DecidableEq

def DecodeFault.message : DecodeFault → String
  | .outOfBytes => "io error: failed to fill whole buffer"
  | .invalidKind n =>
    "invalid value: integer \x60" ++ toString n ++ "\x60, expected variant index 0 <= i < 2"
  | .invalidTag n => s!"tag for enum is not valid, found {n}"
  | .invalidText fault => "string is not valid utf8: " ++ fault.message

inductive FileFault
  | notFound
  | alreadyExists
  | notDirectory
  | isDirectory
  | busy
  | nameTooLong
  | notText
  | nulInName
  deriving DecidableEq

def FileFault.message : FileFault → String
  | .notFound => "No such file or directory (os error 2)"
  | .busy => "Device or resource busy (os error 16)"
  | .alreadyExists => "File exists (os error 17)"
  | .notDirectory => "Not a directory (os error 20)"
  | .isDirectory => "Is a directory (os error 21)"
  | .nameTooLong => "File name too long (os error 36)"
  | .notText => "stream did not contain valid UTF-8"
  | .nulInName => "file name contained an unexpected NUL byte"

inductive PolicyError
  | conflict (c : TypeConflict)
  | unsupportedVersion (found : UInt32)
  | decode (f : DecodeFault)
  | invalid (f : StructureFault)
  | compile (e : CompileError)
  | file (path : String) (f : FileFault)
  /-- A file that was read but holds no usable snapshot. -/
  | invalidFile (path : String) (cause : PolicyError)
  deriving DecidableEq

namespace PolicyError

def message : PolicyError → String
  | .conflict c => c.message
  | .unsupportedVersion found =>
    s!"Unsupported policy version: {found} (this runtime supports up to {currentVersion})"
  | .decode _ => "Malformed policy snapshot"
  | .invalid f => "Invalid policy structure: " ++ f.message
  | .compile e => e.text
  | .file path _ => s!"I/O error on {path}"
  | .invalidFile path _ => s!"Invalid policy file: {path}"

/-- What caused the error, the nearest cause first. -/
def causes : PolicyError → List String
  | .decode f => [f.message]
  | .file _ f => [f.message]
  | .invalidFile _ cause => cause.message :: cause.causes
  | _ => []

/-- The error in full: with an excerpt if it is about a policy file's text, else with its
causes. -/
def describe : PolicyError → String
  | .compile e => e.render
  | e => ": ".intercalate (e.message :: e.causes)

end PolicyError

end GuildPolicy
