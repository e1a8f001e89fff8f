import GuildPolicy.Config

namespace GuildPolicy

/-- Where the policy files are, where snapshots go, and the settings of the policy engine, which
keeps its guild snapshots in the same place. -/
structure BuildConfig where
  sourceDir : String
  cacheDir : String
  policy : Config
  deriving DecidableEq

inductive MissingSetting
  | sourceDir
  | cacheDir
  deriving DecidableEq

namespace MissingSetting

def message : MissingSetting → String
  | .sourceDir => "POLICY_SOURCE_DIR must be set"
  | .cacheDir => "POLICY_CACHE_DIR must be set"

/-- What caused the error. A cache directory can also be missing because it is blank. -/
def causes : MissingSetting → List String
  | .sourceDir => ["environment variable not found"]
  | .cacheDir => []

end MissingSetting

namespace BuildConfig

/-- Two directories, and the default settings of the policy engine. -/
def make (sourceDir cacheDir : String) : BuildConfig :=
  ⟨sourceDir, cacheDir, { Config.default with snapshotDir := some cacheDir }⟩

def read (lookup : String → Option String) : Except MissingSetting BuildConfig :=
  match lookup "POLICY_SOURCE_DIR" with
  | none => .error .sourceDir
  | some sourceDir =>
    let policy := Config.read lookup
    match policy.snapshotDir with
    | none => .error .cacheDir
    | some cacheDir => .ok ⟨sourceDir, cacheDir, policy⟩

def moduleDir (c : BuildConfig) (guild : Uuid) : String :=
  Path.join (Path.join c.cacheDir "modules") guild.text

end BuildConfig

end GuildPolicy
