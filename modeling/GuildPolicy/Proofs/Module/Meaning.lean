import GuildPolicy.Module.Compile

namespace GuildPolicy

open GuildPolicy.Source GuildPolicy.Syntax

namespace Syntax

/-- The natural number that a constant is. -/
def Literal.natural? (l : Literal) : Option Nat :=
  if l.kind = .integer then Text.digits? l.value.toList else none

namespace Statement

def properties : Statement → List Property
  | .module block => block.properties
  | _ => []

def requiredNames : Statement → List String
  | .require block => block.types.map Name.text
  | _ => []

def isRequire : Statement → Bool
  | .require _ => true
  | _ => false

def rule? : Statement → Option Rule
  | .rule r => some r
  | _ => none

/-- Its last property with a name. -/
def property? (s : Statement) (field : String) : Option Property :=
  s.properties.reverse.find? (·.name = field)

end Statement

/-- The last property with a name. -/
def declared? (ss : List Statement) (field : String) : Option Property :=
  (ss.flatMap Statement.properties).reverse.find? (·.name = field)

def requiredNames (ss : List Statement) : List String := ss.flatMap Statement.requiredNames

def rules (ss : List Statement) : List Rule := ss.filterMap Statement.rule?

def Rule.bits (v : Vocabulary) (r : Rule) : Mask :=
  .unionAll (r.permissions.filterMap fun p => v.resolve p.text)

end Syntax

section Faults

variable (v : Vocabulary) (known : List String)

def stringFaults (field : String) (p : Property) : List SemanticError :=
  if p.value.kind = .string then [] else [⟨.notString field p.value.kind, p.span⟩]

def versionFaults (p : Property) : List SemanticError :=
  if p.value.kind ≠ .integer then [⟨.versionNotInteger p.value.kind, p.span⟩]
  else if p.value.natural?.any (· < UInt32.size) then []
  else [⟨.versionOutOfRange p.value.value, p.value.span⟩]

def typeFaults (name : Name) : List SemanticError :=
  if name.text ∈ known then [] else [⟨.unknownType name.text, name.span⟩]

def targetFaults (r : Rule) : List SemanticError :=
  match r.target with
  | .any => []
  | .type name => typeFaults known ⟨name, r.targetSpan⟩

def permissionFaults (p : Name) : List SemanticError :=
  if (v.resolve p.text).isSome then [] else [⟨.unknownPermission p.text, p.span⟩]

/-- All that is wrong with a statement after others, in the order in which it counts. -/
def statementFaults (before : List Statement) : Statement → List SemanticError
  | .module block =>
    (block.property? "name").toList.flatMap (stringFaults "name") ++
      (block.property? "author").toList.flatMap (stringFaults "author") ++
      (block.property? "version").toList.flatMap versionFaults
  | .require block => if before.any Statement.isRequire then [⟨.secondRequire, block.span⟩] else []
  | .rule r =>
    typeFaults (requiredNames before) r.subject ++ targetFaults (requiredNames before) r ++
      r.permissions.flatMap (permissionFaults v)

end Faults

/-- The statements make a module. -/
structure Compilable (v : Vocabulary) (ss : List Statement) : Prop where
  name : ∀ p ∈ declared? ss "name", p.value.kind = .string
  author : ∀ p ∈ declared? ss "author", p.value.kind = .string
  version : ∀ p ∈ declared? ss "version", ∃ n < UInt32.size, p.value.natural? = some n
  require_once : ss.countP Statement.isRequire ≤ 1
  subjects : ∀ before r, before ++ [.rule r] <+: ss → r.subject.text ∈ requiredNames before
  targets : ∀ before r, before ++ [.rule r] <+: ss → ∀ name, r.target = .type name →
    name ∈ requiredNames before
  permissions : ∀ r ∈ rules ss, ∀ p ∈ r.permissions, (v.resolve p.text).isSome

namespace PolicyModule

variable (m : PolicyModule)

/-- The ids of a rule's subject and target. -/
def pair? (r : Rule) : Option (TypeId × TypeId) :=
  match r.target with
  | .any => none
  | .type target => do
    let s ← m.typeId? r.subject.text
    let t ← m.typeId? target
    return (s, t)

/-- The pairs that rules of one kind speak of, in their order. -/
def pairs (kind : RuleKind) (rs : List Rule) : List (TypeId × TypeId) :=
  (rs.filter (·.kind = kind)).filterMap m.pair?

/-- The last rule of a kind for any target of a type. -/
def wildcardRule? (rs : List Rule) (kind : RuleKind) (id : TypeId) : Option Rule :=
  rs.reverse.find? fun r => r.kind = kind ∧ r.target = .any ∧ m.typeId? r.subject.text = some id

/-- The last rule of a kind for a pair of types. -/
def targetedRule? (rs : List Rule) (kind : RuleKind) (s t : TypeId) : Option Rule :=
  rs.reverse.find? fun r => r.kind = kind ∧ m.pair? r = some (s, t)

/-- The module is the one that the statements describe. Of the properties with one name the last one
counts, and so does the last of the rules with one kind, subject and target. Types and the keys of
tables are in the order of their first mention. -/
structure Means (v : Vocabulary) (ss : List Statement) : Prop where
  name : m.name = ((declared? ss "name").map (·.value.value)).getD ""
  author : m.author = (declared? ss "author").map (·.value.value)
  version : m.version = UInt32.ofNat (((declared? ss "version").bind (·.value.natural?)).getD 0)
  types : m.types = (requiredNames ss).eraseDups
  ids : m.types.length ≤ UInt32.size → ∀ i (h : i < m.types.length),
    m.typeId? m.types[i] = some (UInt32.ofNat i) ∧ (UInt32.ofNat i).toNat = i
  wildcard_length : ∀ kind, (m.wildcard kind).length = m.types.length
  wildcard : ∀ kind id,
    m.bitsOf kind id = ((m.wildcardRule? (rules ss) kind id).map (·.bits v)).getD .empty
  targeted : ∀ kind s t, ((m.targeted kind).get? s).bind (·.get? t) =
    (m.targetedRule? (rules ss) kind s t).map (·.bits v)
  subjects : ∀ kind, (m.targeted kind).keys = ((m.pairs kind (rules ss)).map Prod.fst).eraseDups
  targets : ∀ kind s targets, (m.targeted kind).get? s = some targets →
    targets.keys = (((m.pairs kind (rules ss)).filter (·.1 = s)).map Prod.snd).eraseDups

end PolicyModule

end GuildPolicy
