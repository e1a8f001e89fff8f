import GuildPolicy.Build.Config
import GuildPolicy.Guild.Manager

namespace GuildPolicy

/-- What was built for a guild: its modules in load order, and the number of its types. -/
structure GuildSummary where
  guild : Uuid
  modules : List String
  types : Nat
  deriving DecidableEq

structure BuildReport where
  built : List GuildSummary
  failed : List (Uuid × PolicyError)
  deriving DecidableEq

namespace BuildReport

def blank : BuildReport := ⟨[], []⟩

def isSuccess (r : BuildReport) : Bool := r.failed.isEmpty

end BuildReport

structure SourceDirError where
  path : String
  fault : FileFault
  deriving DecidableEq

namespace SourceDirError

def message (e : SourceDirError) : String := s!"Failed to read policy source directory {e.path}"

def causes (e : SourceDirError) : List String := [e.fault.message]

end SourceDirError

namespace Build

/-- The file name of a module's snapshot. Names that could lead elsewhere, or hide the file, are
refused. -/
def snapshotFileName (module : String) : Except PolicyError String :=
  if '/' ∈ module.toList ∨ '\\' ∈ module.toList ∨ module.toList.head? = some '.' then
    .error (.invalid (.notFileName module))
  else .ok (module ++ ".pm")

/-- The directories of guilds, in the order of the guilds' ids. -/
def guildDirs (files : Files) (root : String) : Except SourceDirError (List (Uuid × String)) :=
  match files.list root with
  | .error f => .error ⟨root, f⟩
  | .ok entries =>
    let guilds := entries.filterMap fun (name, e) =>
      match e with
      | .directory => (Uuid.parse? name).map (·, Path.join root name)
      | .file _ => none
    .ok (guilds.mergeSort fun a b => a.1.toNat ≤ b.1.toNat)

/-- The policy files of a directory, in the order of their names. -/
def policySources (files : Files) (dir : String) : Except PolicyError (List String) :=
  match files.list dir with
  | .error f => .error (.file dir f)
  | .ok entries =>
    .ok ((entries.filter fun (name, _) => Path.hasExtension name "policy").map fun (name, _) =>
      Path.join dir name)

/-- Compiles a policy file, writes its module's snapshot, and loads the module from it. -/
def addSource (c : BuildConfig) (guild : Uuid) (m : Manager) (files : Files) (now : Nat)
    (source : String) : Except PolicyError Unit × Manager × Files :=
  match compileFile .platform files source with
  | .error e => (.error e, m, files)
  | .ok module =>
    match snapshotFileName module.name with
    | .error e => (.error e, m, files)
    | .ok name =>
      let path := Path.join (c.moduleDir guild) name
      match storeModule files path module with
      | (files, .error e) => (.error e, m, files)
      | (files, .ok ()) =>
        match m.loadFile now files guild path with
        | (result, m) => (result, m, files)

/-- Adds policy files one after the other, up to the first that fails, each at a time of its
own. -/
def addSources (c : BuildConfig) (guild : Uuid) (m : Manager) (files : Files)
    (times : Nat → Nat) : List String → Except PolicyError Unit × Manager × Files
  | [] => (.ok (), m, files)
  | source :: rest =>
    match addSource c guild m files (times 0) source with
    | (.error e, m, files) => (.error e, m, files)
    | (.ok (), m, files) => addSources c guild m files (fun k => times (k + 1)) rest

/-- Merges the modules of a guild and writes its snapshot. -/
def finishGuild (guild : Uuid) (m : Manager) (files : Files) (times : Nat → Nat) :
    Except PolicyError GuildSummary × Manager × Files :=
  match m.compileAll (times 0) files guild with
  | (.error e, m) => (.error e, m, files)
  | (.ok v, m) =>
    match m.storeGuild (times 1) files guild with
    | (.error e, m, files) => (.error e, m, files)
    | (.ok _, m, files) =>
      match m.modulesOf (times 2) files guild with
      | (modules, m) => (.ok ⟨guild, modules.keys, v.names.size⟩, m, files)

/-- Builds one guild from the policy files of a directory. They are compiled in the order of their
names; each module goes to a snapshot of its own and is loaded from there; the modules are merged,
and the result becomes the guild's snapshot. The manager is called at one time after the other. -/
def buildGuild (c : BuildConfig) (m : Manager) (files : Files) (guild : Uuid) (dir : String)
    (times : Nat → Nat) : Except PolicyError GuildSummary × Manager × Files :=
  let m := m.reset (times 0) guild
  match policySources files dir with
  | .error e => (.error e, m, files)
  | .ok sources =>
    match addSources c guild m files (fun k => times (k + 1)) sources with
    | (.error e, m, files) => (.error e, m, files)
    | (.ok (), m, files) => finishGuild guild m files fun k => times (k + 1 + sources.length)

/-- Builds guilds one after the other, each from a directory. -/
def buildGuilds (c : BuildConfig) (m : Manager) (files : Files) (report : BuildReport)
    (clock : Nat → Nat → Nat) : List (Uuid × String) → BuildReport × Files
  | [] => (report, files)
  | (guild, dir) :: rest =>
    match buildGuild c m files guild dir (clock 0) with
    | (.ok summary, m, files) =>
      buildGuilds c (m.evict guild) files { report with built := report.built ++ [summary] }
        (fun i => clock (i + 1)) rest
    | (.error e, m, files) =>
      buildGuilds c (m.evict guild) files { report with failed := report.failed ++ [(guild, e)] }
        (fun i => clock (i + 1)) rest

/-- Builds all guilds. A guild that fails is reported and leaves its earlier snapshot as it is; only
a source directory that cannot be listed keeps all from being built. The clock says when each
guild's turn calls the manager; without one, no time passes. -/
def buildAll (c : BuildConfig) (files : Files) (clock : Nat → Nat → Nat := fun _ _ => 0) :
    Except SourceDirError BuildReport × Files :=
  match guildDirs files c.sourceDir with
  | .error e => (.error e, files)
  | .ok guilds =>
    match buildGuilds c (.make c.policy) files .blank clock guilds with
    | (report, files) => (.ok report, files)

/-- The access vector and the modules that a new manager finds for a guild. -/
def inspect (c : BuildConfig) (files : Files) (guild : Uuid) : AccessVector × List String :=
  match (Manager.make c.policy).vectorOf 0 files guild with
  | (v, m) => (v, (m.modulesOf 0 files guild).1.keys)

end Build

end GuildPolicy
