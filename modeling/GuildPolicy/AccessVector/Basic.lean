import GuildPolicy.Module.Basic

namespace GuildPolicy

/-- The newest version of modules and access vectors that is understood, and the one written. -/
def currentVersion : UInt32 := 1

structure TypePair where
  subject : TypeId
  target : TypeId
  deriving DecidableEq

/-- The permissions of all types of one guild, merged from its modules. -/
structure AccessVector where
  version : UInt32
  names : Table TypeId String
  ids : Table String TypeId
  allow : Table TypeId Mask
  deny : Table TypeId Mask
  allowOn : Table TypePair Mask
  denyOn : Table TypePair Mask
  deriving DecidableEq

namespace AccessVector

def empty : AccessVector :=
  ⟨currentVersion, .empty, .empty, .empty, .empty, .empty, .empty⟩

def typeId? (v : AccessVector) (name : String) : Option TypeId := v.ids.get? name

def typeName? (v : AccessVector) (id : TypeId) : Option String := v.names.get? id

def allowed (v : AccessVector) (subject : TypeId) : Mask := (v.allow.get? subject).getD .empty

/-- The permissions that a type is denied on any target. -/
def denied (v : AccessVector) (subject : TypeId) : Mask := (v.deny.get? subject).getD .empty

/-- The permissions that a type is denied on a target, as far as the target matters. -/
def deniedOn (v : AccessVector) (pair : TypePair) : Mask := (v.denyOn.get? pair).getD .empty

/-- The permissions that a type has on a target, less all that it is denied. -/
def allowedOn (v : AccessVector) (pair : TypePair) : Mask :=
  ((v.allowOn.get? pair).getD .empty).minus ((v.deniedOn pair).union (v.denied pair.subject))

end AccessVector

end GuildPolicy
