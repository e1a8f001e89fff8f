import GuildPolicy.Table
import GuildPolicy.Text.Duration

namespace GuildPolicy

/-- A value and when it was last inserted or read. -/
structure Slot (ν : Type) where
  value : ν
  lastUse : Nat
  deriving DecidableEq

/-- A bounded cache whose entries expire when they have been neither inserted nor read for a
lifetime. An expired entry stays until something touches it: a read drops it, and an insertion that
finds the cache full first drops all expired entries and then, if the cache is still full, the tenth
of its capacity that was used least recently. Times are in milliseconds of a clock that does not run
backwards. -/
structure IdleCache (κ ν : Type) where
  /-- The most entries, at least one. -/
  capacity : Nat
  /-- The idle time after which an entry is expired. -/
  lifetime : Nat
  slots : Table κ (Slot ν)

namespace IdleCache

variable {κ ν : Type} [DecidableEq κ]

def make (capacity lifetime : Nat) : IdleCache κ ν := ⟨max capacity 1, lifetime, .empty⟩

/-- The number of entries, expired ones included. -/
def size (c : IdleCache κ ν) : Nat := c.slots.size

def isExpired (c : IdleCache κ ν) (now : Nat) (s : Slot ν) : Bool := c.lifetime ≤ now - s.lastUse

/-- Reads a value, which counts as a use; drops it if it is expired. -/
def get (c : IdleCache κ ν) (now : Nat) (k : κ) : Option ν × IdleCache κ ν :=
  match c.slots.get? k with
  | none => (none, c)
  | some s =>
    if c.isExpired now s then (none, { c with slots := c.slots.erase k })
    else (some s.value, { c with slots := c.slots.insert k ⟨s.value, now⟩ })

def purge (c : IdleCache κ ν) (now : Nat) : IdleCache κ ν :=
  { c with slots := c.slots.filter fun _ s => !c.isExpired now s }

def byLastUse (c : IdleCache κ ν) : List κ :=
  (c.slots.entries.mergeSort fun a b => a.2.lastUse ≤ b.2.lastUse).map Prod.fst

/-- How many entries make room when a cache is full: a tenth of its capacity, at least one. -/
def batch (c : IdleCache κ ν) : Nat := min (max (c.capacity / 10) 1) c.size

def evict (c : IdleCache κ ν) (now : Nat) : IdleCache κ ν :=
  let c := c.purge now
  if c.size < c.capacity then c
  else
    let oldest := c.byLastUse.take c.batch
    { c with slots := c.slots.filter fun k _ => k ∉ oldest }

/-- Puts a value under a key, making room first if the key is new and the cache is full. -/
def insert (c : IdleCache κ ν) (now : Nat) (k : κ) (v : ν) : IdleCache κ ν :=
  let c := if !c.slots.contains k && c.capacity ≤ c.size then c.evict now else c
  { c with slots := c.slots.insert k ⟨v, now⟩ }

/-- Reads a value, or puts one under the key; with whether it did. -/
def getOrInsert (c : IdleCache κ ν) (now : Nat) (k : κ) (fresh : ν) :
    ν × Bool × IdleCache κ ν :=
  match c.get now k with
  | (some v, c) => (v, false, c)
  | (none, c) => (fresh, true, c.insert now k fresh)

/-- Drops the value under a key and gives it back, expired or not. -/
def remove (c : IdleCache κ ν) (k : κ) : Option ν × IdleCache κ ν :=
  ((c.slots.get? k).map Slot.value, { c with slots := c.slots.erase k })

def retain (c : IdleCache κ ν) (keep : κ → ν → Bool) : IdleCache κ ν :=
  { c with slots := c.slots.filter fun k s => keep k s.value }

def clear (c : IdleCache κ ν) : IdleCache κ ν := { c with slots := .empty }

/-- All entries, without using them. -/
def toList (c : IdleCache κ ν) : List (κ × ν) := c.slots.entries.map fun (k, s) => (k, s.value)

def text (c : IdleCache κ ν) : String :=
  "TtlCache \x7b len: " ++ toString c.size ++ ", capacity: " ++ toString c.capacity ++ ", ttl: " ++
    Text.duration c.lifetime ++ " \x7d"

end IdleCache

end GuildPolicy
