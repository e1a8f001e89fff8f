import GuildPolicy.IdleCache

namespace GuildPolicy

variable {κ ν σ : Type}

def Slot.isFresh (s : Slot ν) (clock lifetime : Nat) : Bool := clock - s.lastUse < lifetime

/-- The entries after the first `n`. -/
def Table.drop (t : Table κ ν) (n : Nat) : Table κ ν where
  entries := t.entries.drop n
  nodup := t.nodup.sublist ((List.drop_sublist ..).map _)

namespace IdleCache

/-- What can be asked of a cache. -/
inductive Operation (κ ν : Type)
  | insert (k : κ) (v : ν)
  | get (k : κ)
  | getOrInsert (k : κ) (fresh : ν)
  | remove (k : κ)
  | retain (keep : κ → ν → Bool)
  | clear
  | purge
  | size

/-- What an operation that reads a value says. -/
inductive Reply (ν : Type)
  | nothing
  | read (v : Option ν)
  /-- A value, and whether it was put there for the occasion. -/
  | taken (v : ν) (put : Bool)
  deriving DecidableEq

/-- Operations done one after the other, each at its time. -/
def runWith (step : σ → Nat → Operation κ ν → Reply ν × σ) :
    σ → List (Nat × Operation κ ν) → List (Reply ν) × σ
  | c, [] => ([], c)
  | c, (now, op) :: ops =>
    let (reply, c) := step c now op
    let (replies, c) := runWith step c ops
    (reply :: replies, c)

variable [DecidableEq κ]

def step (c : IdleCache κ ν) (now : Nat) : Operation κ ν → Reply ν × IdleCache κ ν
  | .insert k v => (.nothing, c.insert now k v)
  | .get k =>
    let (v, c) := c.get now k
    (.read v, c)
  | .getOrInsert k fresh =>
    let (v, put, c) := c.getOrInsert now k fresh
    (.taken v put, c)
  | .remove k => (.nothing, (c.remove k).2)
  | .retain keep => (.nothing, c.retain keep)
  | .clear => (.nothing, c.clear)
  | .purge => (.nothing, c.purge now)
  | .size => (.nothing, c)

def run (c : IdleCache κ ν) (ops : List (Nat × Operation κ ν)) : List (Reply ν) × IdleCache κ ν :=
  runWith step c ops

structure Ideal (κ ν : Type) where
  capacity : Nat
  lifetime : Nat
  clock : Nat
  /-- The entries, those that were used longest ago first. -/
  live : Table κ (Slot ν)

namespace Ideal

def make (capacity lifetime : Nat) : Ideal κ ν := ⟨capacity, lifetime, 0, .empty⟩

/-- Drops the entries that have been idle for a lifetime. -/
def expire (i : Ideal κ ν) : Ideal κ ν :=
  { i with live := i.live.filter fun _ s => s.isFresh i.clock i.lifetime }

/-- A millisecond passes. -/
def pass (i : Ideal κ ν) : Ideal κ ν := { i with clock := i.clock + 1 }.expire

def wait (i : Ideal κ ν) : Nat → Ideal κ ν
  | 0 => i
  | n + 1 => (i.wait n).pass

/-- Drops the entries that were used longest ago. -/
def dropOldest (i : Ideal κ ν) (n : Nat) : Ideal κ ν :=
  { i with live := i.live.drop n }

/-- Puts a value last. -/
def use (i : Ideal κ ν) (k : κ) (v : ν) : Ideal κ ν :=
  { i with live := (i.live.erase k).insert k ⟨v, i.clock⟩ }

def insert (i : Ideal κ ν) (k : κ) (v : ν) : Ideal κ ν :=
  if k ∉ i.live.keys ∧ max i.capacity 1 ≤ i.live.size then
    (i.dropOldest (max 1 (i.capacity / 10))).use k v
  else i.use k v

def apply (i : Ideal κ ν) : Operation κ ν → Reply ν × Ideal κ ν
  | .insert k v => (.nothing, i.insert k v)
  | .get k =>
    match i.live.get? k with
    | some s => (.read (some s.value), i.use k s.value)
    | none => (.read none, i)
  | .getOrInsert k fresh =>
    match i.live.get? k with
    | some s => (.taken s.value false, i.use k s.value)
    | none => (.taken fresh true, i.insert k fresh)
  | .remove k => (.nothing, { i with live := i.live.erase k })
  | .retain keep => (.nothing, { i with live := i.live.filter fun k s => keep k s.value })
  | .clear => (.nothing, { i with live := .empty })
  | .purge => (.nothing, i)
  | .size => (.nothing, i)

/-- Time passes up to an operation. What the operation leaves expired is dropped at once. -/
def step (i : Ideal κ ν) (now : Nat) (op : Operation κ ν) : Reply ν × Ideal κ ν :=
  let (reply, i) := (i.wait (now - i.clock)).apply op
  (reply, i.expire)

def run (i : Ideal κ ν) (ops : List (Nat × Operation κ ν)) : List (Reply ν) × Ideal κ ν :=
  runWith step i ops

end Ideal

end IdleCache

end GuildPolicy
