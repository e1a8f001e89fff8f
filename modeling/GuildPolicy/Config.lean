import GuildPolicy.Files.Path
import GuildPolicy.Guild.Uuid
import GuildPolicy.Text.Blank
import GuildPolicy.Text.Decimal

namespace GuildPolicy

/-- The size of a cache and the idle time, in milliseconds, after which its entries expire. -/
structure CacheLimits where
  entries : Nat
  lifetime : Nat
  deriving DecidableEq

structure Config where
  /-- Where the snapshots of guilds are kept, if they are. -/
  snapshotDir : Option String
  guildCache : CacheLimits
  permissionCache : CacheLimits
  deriving DecidableEq

namespace Config

/-- Without snapshots; 5000 guilds for half an hour and 20000 results for ten minutes. -/
def default : Config := ⟨none, ⟨5000, 30 * 60 * 1000⟩, ⟨20000, 10 * 60 * 1000⟩⟩

/-- A variable that holds a number of 64 bits, with blanks around it at most. -/
def number? (lookup : String → Option String) (name : String) : Option Nat :=
  (lookup name).bind fun value => Text.natBelow? UInt64.size (Text.trim value)

/-- The limits of a cache: so many entries, for so many seconds. -/
def CacheLimits.read (lookup : String → Option String) (entries seconds : String)
    (default : CacheLimits) : CacheLimits where
  entries := (number? lookup entries).getD default.entries
  lifetime := ((number? lookup seconds).map (· * 1000)).getD default.lifetime

/-- The settings that variables give. A variable that is missing or does not hold a number leaves
the default, as does a directory that is blank. -/
def read (lookup : String → Option String) : Config where
  snapshotDir := (lookup "POLICY_CACHE_DIR").filter (Text.trim · ≠ "")
  guildCache := CacheLimits.read lookup "POLICY_GUILD_CACHE_MAX" "POLICY_GUILD_CACHE_TTL_SECS"
    default.guildCache
  permissionCache := CacheLimits.read lookup "POLICY_PERMISSION_CACHE_MAX"
    "POLICY_PERMISSION_CACHE_TTL_SECS" default.permissionCache

def snapshotPath? (c : Config) (guild : Uuid) : Option String :=
  c.snapshotDir.map fun dir => Path.join dir (guild.text ++ ".avc")

end Config

end GuildPolicy
