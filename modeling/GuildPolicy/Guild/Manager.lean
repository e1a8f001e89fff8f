import GuildPolicy.Config
import GuildPolicy.Files.Basic
import GuildPolicy.IdleCache
import GuildPolicy.Snapshot.Basic

namespace GuildPolicy

abbrev ModuleSet := Table String PolicyModule

/-- What is resident of a guild. -/
structure GuildState where
  modules : ModuleSet
  /-- The modules that the current access vector was merged from, if there ever was one. -/
  merged : Option ModuleSet
  deriving DecidableEq

namespace GuildState

def blank : GuildState := ⟨.empty, none⟩

/-- The state that a snapshot's modules make. -/
def restored (modules : ModuleSet) : GuildState := ⟨modules, some modules⟩

end GuildState

/-- An access vector as it was made current. The serial number tells it from all others, equal
ones included. -/
structure Published where
  serial : Nat
  vector : AccessVector
  deriving DecidableEq

inductive TypeRef
  | name (n : String)
  | id (i : TypeId)
  deriving DecidableEq

def TypeRef.resolve? (v : AccessVector) : TypeRef → Option TypeId
  | .name n => v.typeId? n
  | .id i => some i

/-- The policies of many guilds. A guild's modules stay resident until the guild is evicted or
replaced. The access vector merged from them is kept in a cache of bounded size, from which it may
expire or be pushed out; it is then merged again from the modules that it was last merged from.
Loading and unloading a module changes nothing until the next merge.

A guild that is not resident is restored from its snapshot, if there is one, by the operations that
need its modules. Look-ups never read files. -/
structure Manager where
  config : Config
  guilds : Table Uuid GuildState
  cache : IdleCache Uuid Published
  nextSerial : Nat
  /-- Guilds whose access vector is to be merged again. -/
  due : List Uuid

def ModuleSet.build (ms : ModuleSet) : Except PolicyError AccessVector :=
  match AccessVector.build ms.values with
  | .ok v => .ok v
  | .error c => .error (.conflict c)

def readGuildFile (files : Files) (path : String) : Except PolicyError GuildSnapshot :=
  match files.read path with
  | .error f => .error (.file path f)
  | .ok bytes =>
    match decodeGuild bytes with
    | .ok s => .ok s
    | .error e => .error (.invalidFile path e)

def readModuleFile (files : Files) (path : String) : Except PolicyError PolicyModule :=
  match files.read path with
  | .error f => .error (.file path f)
  | .ok bytes =>
    match decodeModule bytes with
    | .ok m => .ok m
    | .error e => .error (.invalidFile path e)

def compileFile (v : Vocabulary) (files : Files) (path : String) :
    Except PolicyError PolicyModule :=
  match files.readText path with
  | .error f => .error (.file path f)
  | .ok source =>
    match compile v source path with
    | .ok m => .ok m
    | .error e => .error (.compile e)

def storeModule (files : Files) (path : String) (m : PolicyModule) :
    Files × Except PolicyError Unit :=
  files.replace path (encodeModule m)

namespace Manager

def make (config : Config) : Manager :=
  ⟨config, .empty, .make config.guildCache.entries config.guildCache.lifetime, 0, []⟩

/-- Makes an access vector current. -/
def publish (m : Manager) (now : Nat) (guild : Uuid) (v : AccessVector) : Manager :=
  { m with
    cache := m.cache.insert now guild ⟨m.nextSerial, v⟩
    nextSerial := m.nextSerial + 1 }

def cached (m : Manager) (now : Nat) (guild : Uuid) : Option Published × Manager :=
  match m.cache.get now guild with
  | (found, cache) => (found, { m with cache := cache })

/-- Makes a state resident in the place of whatever was, with an access vector if there is one. -/
def install (m : Manager) (now : Nat) (guild : Uuid) (state : GuildState)
    (v : Option AccessVector) : Manager :=
  let m := { m with guilds := m.guilds.insert guild state }
  match v with
  | some v => m.publish now guild v
  | none => { m with cache := (m.cache.remove guild).2 }

def snapshot? (m : Manager) (files : Files) (guild : Uuid) : Option GuildSnapshot :=
  (m.config.snapshotPath? guild).bind fun path => (readGuildFile files path).toOption

/-- The resident state of a guild, restored from its snapshot if need be. -/
def restore (m : Manager) (now : Nat) (files : Files) (guild : Uuid) :
    Option GuildState × Manager :=
  match m.guilds.get? guild with
  | some state => (some state, m)
  | none =>
    match m.snapshot? files guild with
    | none => (none, m)
    | some s =>
      let state := GuildState.restored s.modules
      (some state, m.install now guild state (some s.vector))

/-- The resident state of a guild, restored from its snapshot or else blank if need be. -/
def resident (m : Manager) (now : Nat) (files : Files) (guild : Uuid) : GuildState × Manager :=
  match m.restore now files guild with
  | (some state, m) => (state, m)
  | (none, m) => (.blank, { m with guilds := m.guilds.insert guild .blank })

/-- The current access vector of a guild in a state, merged again if need be. Nothing comes of it
if the guild was never merged or its modules disagree. -/
def rebuild (m : Manager) (now : Nat) (guild : Uuid) (state : GuildState) :
    Option AccessVector × Manager :=
  match m.cached now guild with
  | (some p, m) => (some p.vector, m)
  | (none, m) =>
    match state.merged with
    | none => (none, m)
    | some ms =>
      match ms.build with
      | .ok v => (some v, m.publish now guild v)
      | .error _ => (none, m)

/-- The access vector of a guild, restored or merged again if need be; the empty one for a guild
without policy, which does not become resident. -/
def vectorOf (m : Manager) (now : Nat) (files : Files) (guild : Uuid) : AccessVector × Manager :=
  match m.cached now guild with
  | (some p, m) => (p.vector, m)
  | (none, m) =>
    match m.restore now files guild with
    | (none, m) => (.empty, m)
    | (some state, m) =>
      match m.rebuild now guild state with
      | (v, m) => (v.getD .empty, m)

/-- Adds a module, in the place of an earlier one of its name. -/
def load (m : Manager) (now : Nat) (files : Files) (guild : Uuid) (module : PolicyModule) :
    Except PolicyError Unit × Manager :=
  match module.validate with
  | .error e => (.error e, m)
  | .ok () =>
    match m.resident now files guild with
    | (state, m) =>
      let state := { state with modules := state.modules.insert module.name module }
      (.ok (), { m with guilds := m.guilds.insert guild state })

def loadFile (m : Manager) (now : Nat) (files : Files) (guild : Uuid) (path : String) :
    Except PolicyError Unit × Manager :=
  match readModuleFile files path with
  | .error e => (.error e, m)
  | .ok module => m.load now files guild module

def unload (m : Manager) (now : Nat) (files : Files) (guild : Uuid) (name : String) :
    Option PolicyModule × Manager :=
  match m.restore now files guild with
  | (none, m) => (none, m)
  | (some state, m) =>
    (state.modules.get? name, { m with
      guilds := m.guilds.insert guild { state with modules := state.modules.erase name } })

def modulesOf (m : Manager) (now : Nat) (files : Files) (guild : Uuid) : ModuleSet × Manager :=
  match m.restore now files guild with
  | (none, m) => (.empty, m)
  | (some state, m) => (state.modules, m)

/-- Merges the modules of a guild and makes the result current. If they disagree, all stays as it
was. -/
def compileAll (m : Manager) (now : Nat) (files : Files) (guild : Uuid) :
    Except PolicyError AccessVector × Manager :=
  match m.resident now files guild with
  | (state, m) =>
    match state.modules.build with
    | .error e => (.error e, m)
    | .ok v =>
      match v.validate with
      | .error e => (.error e, m)
      | .ok () =>
        let state := { state with merged := some state.modules }
        (.ok v, ({ m with guilds := m.guilds.insert guild state }).publish now guild v)

/-- Writes a guild's snapshot to a file; of a guild that is not resident, a blank one. -/
def store (m : Manager) (now : Nat) (files : Files) (guild : Uuid) (path : String) :
    Except PolicyError Unit × Manager × Files :=
  let (snapshot, m) : GuildSnapshot × Manager :=
    match m.guilds.get? guild with
    | none => (.blank, m)
    | some state =>
      match m.rebuild now guild state with
      | (v, m) => (⟨v.getD .empty, state.modules⟩, m)
  match files.replace path (encodeGuild snapshot) with
  | (files, result) => (result, m, files)

/-- Replaces what is resident of a guild by the snapshot in a file. -/
def loadVector (m : Manager) (now : Nat) (files : Files) (guild : Uuid) (path : String) :
    Except PolicyError Unit × Manager :=
  match readGuildFile files path with
  | .error e => (.error e, m)
  | .ok s => (.ok (), m.install now guild (.restored s.modules) (some s.vector))

/-- Writes a guild's snapshot to where it is kept; with whether snapshots are kept. -/
def storeGuild (m : Manager) (now : Nat) (files : Files) (guild : Uuid) :
    Except PolicyError Bool × Manager × Files :=
  match m.config.snapshotPath? guild with
  | none => (.ok false, m, files)
  | some path =>
    match m.store now files guild path with
    | (result, m, files) => ((fun _ => true) <$> result, m, files)

/-- Replaces what is resident of a guild by its snapshot; with whether snapshots are kept. -/
def loadGuild (m : Manager) (now : Nat) (files : Files) (guild : Uuid) :
    Except PolicyError Bool × Manager :=
  match m.config.snapshotPath? guild with
  | none => (.ok false, m)
  | some path =>
    match m.loadVector now files guild path with
    | (result, m) => ((fun _ => true) <$> result, m)

/-- Replaces what is resident of a guild by a blank state, whatever snapshot there is. -/
def reset (m : Manager) (now : Nat) (guild : Uuid) : Manager := m.install now guild .blank none

def evict (m : Manager) (guild : Uuid) : Manager :=
  { m with guilds := m.guilds.erase guild, cache := (m.cache.remove guild).2 }

def residentCount (m : Manager) : Nat := m.guilds.size

/-- The current access vector of a guild, if it is in the cache. If it is not but was merged
before, it becomes due to be merged again, unless the look-up is `detached` from all background
work. -/
def current (m : Manager) (now : Nat) (detached : Bool) (guild : Uuid) :
    Option Published × Manager :=
  match m.cached now guild with
  | (some p, m) => (some p, m)
  | (none, m) =>
    match m.guilds.get? guild with
    | none => (none, m)
    | some state =>
      if state.merged.isSome && !detached then (none, { m with due := guild :: m.due })
      else (none, m)

/-- Merges one guild again if it is resident. -/
def settleGuild (now : Nat) (m : Manager) (guild : Uuid) : Manager :=
  match m.guilds.get? guild with
  | none => m
  | some state => (m.rebuild now guild state).2

def settle (m : Manager) (now : Nat) : Manager :=
  m.due.foldl (settleGuild now) { m with due := [] }

def permissionsOf (m : Manager) (now : Nat) (detached : Bool) (guild : Uuid) (subject : TypeRef) :
    Mask × Manager :=
  match m.current now detached guild with
  | (none, m) => (.empty, m)
  | (some p, m) =>
    match subject.resolve? p.vector with
    | some id => (p.vector.allowed id, m)
    | none => (.empty, m)

def pairOf (m : Manager) (now : Nat) (detached : Bool) (guild : Uuid) (subject target : TypeRef)
    (read : AccessVector → TypePair → Mask) : Mask × Manager :=
  match m.current now detached guild with
  | (none, m) => (.empty, m)
  | (some p, m) =>
    match subject.resolve? p.vector, target.resolve? p.vector with
    | some s, some t => (read p.vector ⟨s, t⟩, m)
    | _, _ => (.empty, m)

def permissionsOn (m : Manager) (now : Nat) (detached : Bool) (guild : Uuid)
    (subject target : TypeRef) : Mask × Manager :=
  m.pairOf now detached guild subject target AccessVector.allowedOn

def denialsOn (m : Manager) (now : Nat) (detached : Bool) (guild : Uuid)
    (subject target : TypeRef) : Mask × Manager :=
  m.pairOf now detached guild subject target AccessVector.deniedOn

end Manager

end GuildPolicy
