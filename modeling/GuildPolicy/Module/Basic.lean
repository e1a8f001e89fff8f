import GuildPolicy.Permission.Mask
import GuildPolicy.Syntax.Tree
import GuildPolicy.Table

namespace GuildPolicy

open GuildPolicy.Syntax

abbrev TypeId := UInt32

abbrev TargetTable := Table TypeId (Table TypeId Mask)

/-- What one policy file declares. A type's id is its place in the list of types. Wildcard
permissions, which hold on any target, stand in lists by type id; targeted ones in tables by subject
and target. -/
structure PolicyModule where
  name : String
  author : Option String
  version : UInt32
  types : List String
  allow : List Mask
  deny : List Mask
  allowOn : TargetTable
  denyOn : TargetTable
  deriving DecidableEq

namespace PolicyModule

def blank : PolicyModule := ⟨"", none, 0, [], [], [], .empty, .empty⟩

def typeId? (m : PolicyModule) (name : String) : Option TypeId :=
  (m.types.idxOf? name).map UInt32.ofNat

def wildcard (m : PolicyModule) : RuleKind → List Mask
  | .allow => m.allow
  | .deny => m.deny

def targeted (m : PolicyModule) : RuleKind → TargetTable
  | .allow => m.allowOn
  | .deny => m.denyOn

/-- The wildcard permissions that one kind of rule gives a type; none if it is not listed. -/
def bitsOf (m : PolicyModule) (kind : RuleKind) (id : TypeId) : Mask :=
  (m.wildcard kind)[id.toNat]?.getD .empty

def allowOf (m : PolicyModule) (id : TypeId) : Mask := m.bitsOf .allow id

def denyOf (m : PolicyModule) (id : TypeId) : Mask := m.bitsOf .deny id

end PolicyModule

end GuildPolicy
