import GuildPolicy.Error

namespace GuildPolicy

open GuildPolicy.Syntax

namespace AccessVector

/-- A type index with more entries in one direction than in the other. -/
def sizesFault? (v : AccessVector) : Option StructureFault :=
  if v.names.size = v.ids.size then none else some (.indexSizes v.names.size v.ids.size)

/-- The first type that its name does not lead back to. -/
def indexFault? (v : AccessVector) : Option StructureFault :=
  (v.names.entries.find? fun (id, name) => v.ids.get? name ≠ some id).map
    fun (id, name) => .notInReverseIndex name id

/-- The first wildcard entry of a type without a name. -/
def wildcardFault? (v : AccessVector) (kind : RuleKind) (table : Table TypeId Mask) :
    Option StructureFault :=
  (table.keys.find? (!v.names.contains ·)).map (.unknownType kind)

/-- The first targeted entry with a subject or a target without a name. -/
def targetsFault? (v : AccessVector) (kind : RuleKind) (table : Table TypePair Mask) :
    Option StructureFault :=
  (table.keys.find? fun pair => !v.names.contains pair.subject || !v.names.contains pair.target).map
    (.unknownPair kind)

def fault? (v : AccessVector) : Option StructureFault :=
  v.sizesFault? <|> v.indexFault? <|> v.wildcardFault? .allow v.allow <|>
    v.wildcardFault? .deny v.deny <|> v.targetsFault? .allow v.allowOn <|>
    v.targetsFault? .deny v.denyOn

/-- The version must be understood, the two type indexes inverse to each other, and the tables must
speak of named types only. -/
def validate (v : AccessVector) : Except PolicyError Unit :=
  if currentVersion < v.version then .error (.unsupportedVersion v.version)
  else
    match v.fault? with
    | some f => .error (.invalid f)
    | none => .ok ()

end AccessVector

end GuildPolicy
