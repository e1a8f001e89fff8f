import GuildPolicy.Build.CommandLine

namespace GuildPolicy.Disk

def pathOf (place : List String) : String := "/" ++ "/".intercalate place

/-- Reads what is at a place: a directory or, if wanted, a file. -/
def readEntry (place : List String) : IO (Option FileEntry) := do
  let path := (← IO.currentDir) / pathOf place
  if ← path.isDir then return some .directory
  if ← path.pathExists then return some (.file (← IO.FS.readBinFile path).toList)
  return none

/-- Reads what is at a place and up to `depth` levels below it. -/
def readTree (files : Files) (place : List String) : Nat → IO Files
  | 0 => return files
  | depth + 1 => do
    match ← readEntry place with
    | none => return files
    | some (.file bytes) => return files.put place (.file bytes)
    | some .directory =>
      let path := (← IO.currentDir) / pathOf place
      let mut files := files.put place .directory
      for found in ← path.readDir do
        files ← readTree files (place ++ [found.fileName]) depth
      return files

/-- Reads what a list of names leads through, and up to `depth` levels below its end. -/
def readAlong (files : Files) (depth : Nat) (place : List String) : List String → IO Files
  | [] => readTree files place depth
  | name :: names => do
    if name = ".." then readAlong files depth place.dropLast names
    else
      let next := place ++ [name]
      match ← readEntry next with
      | none => return files
      | some (.file bytes) => return files.put next (.file bytes)
      | some .directory => readAlong (files.put next .directory) depth next names

/-- Writes what differs between two states of the files. -/
def writeChanges (before after : Files) : IO Unit := do
  for (place, e) in after.entries.entries do
    if before.entries.get? place ≠ some e then
      match e with
      | .directory => IO.FS.createDirAll (pathOf place)
      | .file bytes => IO.FS.writeBinFile (pathOf place) ⟨bytes.toArray⟩
  for (place, e) in before.entries.entries do
    if let .file _ := e then
      if !after.entries.contains place then IO.FS.removeFile (pathOf place)

end GuildPolicy.Disk

open GuildPolicy in
/-- The build tool as a program: it takes its settings from the environment, reads the source and
cache directories, builds, and writes what has changed. -/
def main : IO UInt32 := do
  let names := ["POLICY_SOURCE_DIR", "POLICY_CACHE_DIR", "POLICY_GUILD_CACHE_MAX",
    "POLICY_GUILD_CACHE_TTL_SECS", "POLICY_PERMISSION_CACHE_MAX",
    "POLICY_PERMISSION_CACHE_TTL_SECS"]
  let values ← names.filterMapM fun name => do return (← IO.getEnv name).map (name, ·)
  let lookup (name : String) := List.lookup name values
  let working := Path.names (← IO.currentDir).toString
  let mut before : Files := { Files.empty with working := working }
  if let .ok c := BuildConfig.read lookup then
    for dir in [c.sourceDir, c.cacheDir] do
      before ← Disk.readAlong before 4 (before.start dir) (Path.names dir)
  let (outcome, after) := Build.run lookup before
  Disk.writeChanges before after
  (← IO.getStderr).putStr outcome.errors
  return UInt32.ofNat outcome.exitCode
