import GuildPolicy.AccessVector.Basic

namespace GuildPolicy

structure TypeConflict where
  /-- The module that disagrees with those before it. -/
  module : String
  /-- The module that first had the id in question. -/
  existingModule : String
  /-- The name that the id has. -/
  existing : String
  /-- The name that the module declares. -/
  new : String
  typeId : TypeId
  deriving DecidableEq

def TypeConflict.message (c : TypeConflict) : String :=
  s!"Conflicting type definitions in policy module {c.module}: existing '{c.existing}' from " ++
    s!"{c.existingModule}, new '{c.new}' [@{c.typeId}]"

def TargetTable.pairs (t : TargetTable) : List (TypePair × Mask) :=
  t.entries.flatMap fun (subject, targets) =>
    targets.entries.map fun (target, bits) => (⟨subject, target⟩, bits)

/-- An access vector that modules are being merged into, and the module that first had each
type. -/
structure Merge where
  vector : AccessVector
  owners : Table TypeId String

namespace Merge

def blank : Merge := ⟨.empty, .empty⟩

/-- The id that stands in the way of a declaration, and the name that the id has: the declared id
if it has another name already, else the id that the name has already. -/
def obstacle? (v : AccessVector) (id : TypeId) (name : String) : Option (TypeId × String) :=
  match (v.names.get? id).filter (· ≠ name), (v.ids.get? name).filter (· ≠ id) with
  | some existing, _ => some (id, existing)
  | none, some other => some (other, name)
  | none, none => none

/-- Adds a module's declaration of a type, with the type's wildcard permissions. -/
def declare (m : PolicyModule) (s : Merge) (name : String) (id : TypeId) :
    Except TypeConflict Merge :=
  let v := s.vector
  match obstacle? v id name with
  | some (other, existing) =>
    .error ⟨m.name, (s.owners.get? other).getD "", existing, name, other⟩
  | none =>
    let deny := (v.denied id).union (m.denyOf id)
    .ok {
      owners := if s.owners.contains id then s.owners else s.owners.insert id m.name
      vector := { v with
        names := v.names.insert id name
        ids := v.ids.insert name id
        deny := v.deny.insert id deny
        allow := v.allow.insert id ((v.allowed id).grant (m.allowOf id) deny) } }

/-- Adds a module's declarations in the order of their ids. -/
def declareAll (m : PolicyModule) (s : Merge) : Except TypeConflict Merge :=
  m.types.zipIdx.foldlM (fun s (name, i) => s.declare m name (UInt32.ofNat i)) s

/-- Adds a denial on a target, with what the subject is denied on any target. -/
def denyPair (v : AccessVector) (entry : TypePair × Mask) : AccessVector :=
  let bits := entry.2.union (v.denied entry.1.subject)
  { v with denyOn := v.denyOn.update entry.1 .empty (·.union bits) }

/-- Adds a grant on a target, with what the subject is allowed on any target, less all that it is
denied. -/
def allowPair (v : AccessVector) (entry : TypePair × Mask) : AccessVector :=
  let bits := entry.2.union (v.allowed entry.1.subject)
  let deny := (v.deniedOn entry.1).union (v.denied entry.1.subject)
  { v with allowOn := v.allowOn.update entry.1 .empty (·.grant bits deny) }

def add (s : Merge) (m : PolicyModule) : Except TypeConflict Merge := do
  let s ← s.declareAll m
  let denials := m.denyOn.pairs.foldl denyPair s.vector
  return { s with vector := m.allowOn.pairs.foldl allowPair denials }

end Merge

/-- Merges modules in order. A type must have the same name and the same id in all of them. Denials
add up and take away from what is allowed, whichever module it came from. What a type is allowed or
denied on any target up to a module also goes into the pairs that this module names, so that a pair
does not depend on later modules except through their denials. -/
def AccessVector.build (modules : List PolicyModule) : Except TypeConflict AccessVector :=
  Merge.vector <$> modules.foldlM Merge.add .blank

end GuildPolicy
