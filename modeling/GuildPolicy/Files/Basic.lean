import GuildPolicy.Error
import GuildPolicy.Files.Path

namespace GuildPolicy

inductive FileEntry
  | file (bytes : List UInt8)
  | directory
  deriving DecidableEq

/-- Files and directories as a value: what is where. A place is the list of names that lead to it
from the root. -/
structure Files where
  entries : Table (List String) FileEntry
  /-- The place of the working directory. -/
  working : List String
  deriving DecidableEq

namespace Files

/-- A working directory that is new and empty, as is all around it. -/
def empty : Files := ⟨.empty, ["tmp", "work"]⟩

/-- What is at a place. The directories from the root to the working directory are always there. -/
def entryAt? (fs : Files) (place : List String) : Option FileEntry :=
  if place.isPrefixOf fs.working then some .directory else fs.entries.get? place

def put (fs : Files) (place : List String) (e : FileEntry) : Files :=
  { fs with entries := fs.entries.insert place e }

def erase (fs : Files) (place : List String) : Files :=
  { fs with entries := fs.entries.erase place }

def longestName : Nat := 255

def longestPath : Nat := 4095

def lookup (fs : Files) (dir : List String) (name : String) :
    Except FileFault (Option FileEntry) :=
  if longestName < name.utf8ByteSize then .error .nameTooLong else .ok (fs.entryAt? (dir ++ [name]))

/-- The directory at the end of a list of names, followed from `here`. The directory above the
root is the root. -/
def follow (fs : Files) (here : List String) : List String → Except FileFault (List String)
  | [] => .ok here
  | name :: names =>
    if name = ".." then fs.follow here.dropLast names
    else
      match fs.lookup here name with
      | .error f => .error f
      | .ok (some .directory) => fs.follow (here ++ [name]) names
      | .ok (some (.file _)) => .error .notDirectory
      | .ok none => .error .notFound

/-- Where a path starts: at the root if it is absolute, else at the working directory. -/
def start (fs : Files) (path : String) : List String :=
  if Path.isAbsolute path then [] else fs.working

/-- Where a path ends. -/
inductive Spot
  /-- At a directory to which it gives no name. -/
  | directory (place : List String)
  /-- At a name in a directory, which has to be a directory too if a slash follows it. -/
  | named (dir : List String) (name : String) (slash : Bool)

/-- Paths are followed name by name through existing directories. What stands in the way decides
which fault is reported. -/
def locate (fs : Files) (path : String) : Except FileFault Spot :=
  if '\x00' ∈ path.toList then .error .nulInName
  else if path = "" then .error .notFound
  else if longestPath < path.utf8ByteSize then .error .nameTooLong
  else
    let names := Path.names path
    match Path.lastName? path with
    | none =>
      match fs.follow (fs.start path) names with
      | .ok place => .ok (.directory place)
      | .error f => .error f
    | some name =>
      match fs.follow (fs.start path) names.dropLast with
      | .ok dir => .ok (.named dir name (Path.endsInSlash path))
      | .error f => .error f

/-- The place at the end of a path, and what is there. -/
def find (fs : Files) (path : String) : Except FileFault (List String × FileEntry) :=
  match fs.locate path with
  | .error f => .error f
  | .ok (.directory place) => .ok (place, .directory)
  | .ok (.named dir name slash) =>
    match fs.lookup dir name with
    | .error f => .error f
    | .ok none => .error .notFound
    | .ok (some .directory) => .ok (dir ++ [name], .directory)
    | .ok (some (.file bytes)) =>
      if slash then .error .notDirectory else .ok (dir ++ [name], .file bytes)

def directory? (fs : Files) (path : String) : Except FileFault (List String) :=
  match fs.find path with
  | .ok (place, .directory) => .ok place
  | .ok (_, .file _) => .error .notDirectory
  | .error f => .error f

def read (fs : Files) (path : String) : Except FileFault (List UInt8) :=
  match fs.find path with
  | .ok (_, .file bytes) => .ok bytes
  | .ok (_, .directory) => .error .isDirectory
  | .error f => .error f

def readText (fs : Files) (path : String) : Except FileFault String :=
  match fs.read path with
  | .error f => .error f
  | .ok bytes =>
    match Text.decodeUtf8 bytes with
    | .ok cs => .ok (String.ofList cs)
    | .error _ => .error .notText

/-- The names in a directory with what they name, in the order of their characters. -/
def list (fs : Files) (path : String) : Except FileFault (List (String × FileEntry)) :=
  match fs.directory? path with
  | .error f => .error f
  | .ok place =>
    let found := fs.entries.entries.filterMap fun (p, e) =>
      if p.dropLast = place then p.getLast?.map (·, e) else none
    .ok (found.mergeSort fun a b => !decide (b.1 < a.1))

def makeDirectory (fs : Files) (path : String) : Except FileFault Files :=
  match fs.locate path with
  | .error f => .error f
  | .ok (.directory _) => .error .alreadyExists
  | .ok (.named dir name _) =>
    match fs.lookup dir name with
    | .error f => .error f
    | .ok (some _) => .error .alreadyExists
    | .ok none => .ok (fs.put (dir ++ [name]) .directory)

/-- Writes a file in an existing directory, in the place of an earlier one. -/
def write (fs : Files) (path : String) (bytes : List UInt8) : Except FileFault Files :=
  match fs.locate path with
  | .error f => .error f
  | .ok (.directory _) | .ok (.named _ _ true) => .error .isDirectory
  | .ok (.named dir name false) =>
    match fs.lookup dir name with
    | .error f => .error f
    | .ok (some .directory) => .error .isDirectory
    | .ok _ => .ok (fs.put (dir ++ [name]) (.file bytes))

/-- Gives a file another path, in the place of an earlier file. -/
def rename (fs : Files) (source path : String) : Except FileFault Files :=
  match fs.locate source, fs.locate path with
  | .error f, _ | _, .error f => .error f
  | .ok (.named dir name slash), .ok (.named dir' name' slash') =>
    match fs.lookup dir name, fs.lookup dir' name' with
    | .error f, _ => .error f
    | .ok none, _ => .error .notFound
    | _, .error f => .error f
    | .ok (some .directory), _ => .error .isDirectory
    | .ok (some (.file bytes)), .ok there =>
      if slash || slash' then .error .notDirectory
      else if there = some .directory then .error .isDirectory
      else .ok ((fs.erase (dir ++ [name])).put (dir' ++ [name']) (.file bytes))
  | _, _ => .error .busy

/-- Creates a directory if those that lead to it can be created, in turn. The paths come longest
first. A directory that is there already is fine. -/
def makeChain (fs : Files) : List String → Files × Except FileFault Unit
  | [] => (fs, .ok ())
  | path :: shorter =>
    let settle (fs : Files) (f : FileFault) : Files × Except FileFault Unit :=
      (fs, if (fs.directory? path).isOk then .ok () else .error f)
    match fs.makeDirectory path with
    | .ok fs => (fs, .ok ())
    | .error .notFound =>
      match fs.makeChain shorter with
      | (fs, .error f) => (fs, .error f)
      | (fs, .ok ()) =>
        match fs.makeDirectory path with
        | .ok fs => (fs, .ok ())
        | .error f => settle fs f
    | .error f => settle fs f

/-- Creates a directory and those above it that are missing. -/
def makeDirectories (fs : Files) (path : String) : Files × Except FileFault Unit :=
  match Path.parents? path with
  | some parents => fs.makeChain (path :: parents)
  | none => (fs, .ok ())

/-- Creates the directories above a path that are missing. -/
def makeParents (fs : Files) (path : String) : Files × Except FileFault Unit :=
  match Path.parent? path with
  | some parent => if parent = "" then (fs, .ok ()) else fs.makeDirectories parent
  | none => (fs, .ok ())

/-- Drops everything that satisfies a test on its place. -/
def drop (fs : Files) (gone : List String → Bool) : Files :=
  { fs with entries := fs.entries.filter fun place _ => !gone place }

/-- Deletes a file, or a directory with all that is in it. A directory to which the path gives no
name stays, but nothing in it does. -/
def remove (fs : Files) (path : String) : Files × Except FileFault Unit :=
  match fs.locate path, fs.find path with
  | .error f, _ | _, .error f => (fs, .error f)
  | .ok (.directory _), .ok (place, _) =>
    (fs.drop fun p => place.isPrefixOf p && p ≠ place, .error .busy)
  | .ok (.named _ _ _), .ok (place, _) => (fs.drop place.isPrefixOf, .ok ())

/-- Everything below the working directory in the order of its characters: directories with a
slash, files with their sizes. -/
def listing (fs : Files) : List String :=
  let lines := fs.entries.entries.filterMap fun (place, e) =>
    if fs.working.isPrefixOf place ∧ place ≠ fs.working then
      let path := "/".intercalate (place.drop fs.working.length)
      match e with
      | .directory => some (path ++ "/")
      | .file bytes => some s!"{path} {bytes.length}"
    else none
  lines.mergeSort fun a b => !decide (b < a)

/-- Writes a file so that it is there with the new bytes or as it was before: the bytes go to a
file beside it, which then takes its place. Missing directories above it are created. -/
def replace (fs : Files) (path : String) (bytes : List UInt8) :
    Files × Except PolicyError Unit :=
  match fs.makeParents path with
  | (fs, .error f) => (fs, .error (.file ((Path.parent? path).getD "") f))
  | (fs, .ok ()) =>
    let beside := path ++ ".tmp"
    match fs.write beside bytes with
    | .error f => (fs, .error (.file beside f))
    | .ok fs =>
      match fs.rename beside path with
      | .error f => (fs, .error (.file path f))
      | .ok fs => (fs, .ok ())

end Files

end GuildPolicy
