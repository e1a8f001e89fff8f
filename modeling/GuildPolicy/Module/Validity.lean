import GuildPolicy.Error

namespace GuildPolicy

open GuildPolicy.Syntax

namespace PolicyModule

/-- The first type without a name, or with a name that is among those `seen` before it. -/
def typesFault? (module : String) (seen : List String) : List String → Option StructureFault
  | [] => none
  | t :: ts =>
    if t = "" then some (.emptyTypeName module)
    else if t ∈ seen then some (.repeatedType module t)
    else typesFault? module (t :: seen) ts

def wildcardFault? (m : PolicyModule) : Option StructureFault :=
  let listed := max m.allow.length m.deny.length
  if m.types.length < listed then some (.wildcardTooLong m.name listed m.types.length) else none

/-- The first undeclared type of a targeted table, subjects before their targets. -/
def targetsFault? (m : PolicyModule) (kind : RuleKind) : Option StructureFault :=
  let ids := (m.targeted kind).entries.flatMap fun (subject, targets) => subject :: targets.keys
  (ids.find? (m.types.length ≤ ·.toNat)).map (.undeclaredTarget m.name kind)

def fault? (m : PolicyModule) : Option StructureFault :=
  if m.name = "" then some .emptyModuleName
  else typesFault? m.name [] m.types <|> m.wildcardFault? <|> m.targetsFault? .allow <|>
    m.targetsFault? .deny

/-- Every module must have a name, its types distinct names, and its tables must speak of its types
only, whether it was compiled or read from a snapshot. -/
def validate (m : PolicyModule) : Except PolicyError Unit :=
  match m.fault? with
  | some f => .error (.invalid f)
  | none => .ok ()

end PolicyModule

end GuildPolicy
