import GuildPolicy.Module.Basic
import GuildPolicy.Permission.Vocabulary
import GuildPolicy.Source.Excerpt
import GuildPolicy.Syntax.Parser

namespace GuildPolicy

open GuildPolicy.Source GuildPolicy.Syntax

/-- What can be wrong with a text that has a syntax tree. -/
inductive SemanticFault
  | notString (field : String) (found : LiteralKind)
  | versionNotInteger (found : LiteralKind)
  | versionOutOfRange (value : String)
  | secondRequire
  | unknownType (name : String)
  | unknownPermission (name : String)
  deriving DecidableEq

def SemanticFault.message : SemanticFault → String
  | .notString field found => s!"module.{field} must be a valid string, found " ++ found.text
  | .versionNotInteger found => "module.version must be a valid integer, found " ++ found.text
  | .versionOutOfRange value =>
    s!"module.version must be between 0 and 4294967295, found {value}"
  | .secondRequire => "Only one require block is allowed per policy file"
  | .unknownType name => s!"Invalid type '{name}': did you forget to require it?"
  | .unknownPermission name => s!"Invalid permission type '{name}'"

structure SemanticError where
  fault : SemanticFault
  span : Span
  deriving DecidableEq

/-- A module that statements are being added to, and whether a require block was among them. -/
structure Draft where
  module : PolicyModule
  required : Bool
  deriving DecidableEq

namespace Draft

def blank : Draft := ⟨.blank, false⟩

/-- A property that must be a string if it is there. -/
def stringProperty (block : ModuleBlock) (field : String) :
    Except SemanticError (Option String) :=
  match block.property? field with
  | none => .ok none
  | some p =>
    if p.value.kind = .string then .ok (some p.value.value)
    else .error ⟨.notString field p.value.kind, p.span⟩

/-- The version, which must be an integer of 32 bits if it is there. -/
def versionProperty (block : ModuleBlock) : Except SemanticError (Option UInt32) :=
  match block.property? "version" with
  | none => .ok none
  | some p =>
    if p.value.kind = .integer then
      match Text.natBelow? UInt32.size p.value.value with
      | some n => .ok (some (UInt32.ofNat n))
      | none => .error ⟨.versionOutOfRange p.value.value, p.value.span⟩
    else .error ⟨.versionNotInteger p.value.kind, p.span⟩

def addModule (d : Draft) (block : ModuleBlock) : Except SemanticError Draft := do
  let name ← stringProperty block "name"
  let author ← stringProperty block "author"
  let version ← versionProperty block
  return { d with module := { d.module with
    name := name.getD d.module.name
    author := author.or d.module.author
    version := version.getD d.module.version } }

/-- Lists the types, each at its first mention, without permissions. -/
def addRequire (d : Draft) (block : RequireBlock) : Except SemanticError Draft :=
  if d.required then .error ⟨.secondRequire, block.span⟩
  else
    let types := (block.types.map Name.text).eraseDups
    .ok ⟨{ d.module with
      types := types
      allow := List.replicate types.length .empty
      deny := List.replicate types.length .empty }, true⟩

def typeId (d : Draft) (name : Name) : Except SemanticError TypeId :=
  match d.module.typeId? name.text with
  | some id => .ok id
  | none => .error ⟨.unknownType name.text, name.span⟩

/-- The id of a rule's target, nothing for the wildcard. -/
def targetId (d : Draft) (r : Rule) : Except SemanticError (Option TypeId) :=
  match r.target with
  | .any => .ok none
  | .type name => some <$> d.typeId ⟨name, r.targetSpan⟩

def addPermission (v : Vocabulary) (bits : Mask) (p : Name) : Except SemanticError Mask :=
  match v.resolve p.text with
  | some flag => .ok (bits.union flag)
  | none => .error ⟨.unknownPermission p.text, p.span⟩

def permissions (v : Vocabulary) (ps : List Name) : Except SemanticError Mask :=
  ps.foldlM (addPermission v) .empty

def record (m : PolicyModule) (kind : RuleKind) (subject : TypeId) (target : Option TypeId)
    (bits : Mask) : PolicyModule :=
  match kind, target with
  | .allow, none => { m with allow := m.allow.set subject.toNat bits }
  | .deny, none => { m with deny := m.deny.set subject.toNat bits }
  | .allow, some t => { m with allowOn := m.allowOn.update subject .empty (·.insert t bits) }
  | .deny, some t => { m with denyOn := m.denyOn.update subject .empty (·.insert t bits) }

def addRule (v : Vocabulary) (d : Draft) (r : Rule) : Except SemanticError Draft := do
  let subject ← d.typeId r.subject
  let target ← d.targetId r
  let bits ← permissions v r.permissions
  return { d with module := record d.module r.kind subject target bits }

def add (v : Vocabulary) (d : Draft) : Statement → Except SemanticError Draft
  | .module block => d.addModule block
  | .require block => d.addRequire block
  | .rule r => d.addRule v r

end Draft

def PolicyModule.ofPolicy (v : Vocabulary) (p : Policy) : Except SemanticError PolicyModule :=
  Draft.module <$> p.statements.foldlM (Draft.add v) .blank

inductive Problem
  /-- The text has no syntax tree. -/
  | ofSyntax (e : SyntaxError)
  /-- The syntax tree describes no module. -/
  | ofMeaning (e : SemanticError)
  deriving DecidableEq

/-- A problem of a policy file, with the file's name and text. -/
structure CompileError where
  filename : String
  source : String
  problem : Problem
  deriving DecidableEq

namespace CompileError

def message (e : CompileError) : String :=
  match e.problem with
  | .ofSyntax p => p.message
  | .ofMeaning p => p.fault.message

def span (e : CompileError) : Span :=
  match e.problem with
  | .ofSyntax p => p.span
  | .ofMeaning p => p.span

def text (e : CompileError) : String :=
  match e.problem with
  | .ofSyntax p => e.filename ++ ": " ++ p.text
  | .ofMeaning p => e.filename ++ ":" ++ p.span.start.text ++ ": " ++ p.fault.message

def render (e : CompileError) : String :=
  excerpt e.source.toList e.filename e.span e.message

end CompileError

/-- From a policy file to a module. Statements count in the order in which they are written: a rule
may only speak of types that a require block before it lists, and a later rule for the same kind,
subject and target replaces an earlier one. The first statement at fault ends it. -/
def compile (v : Vocabulary) (source filename : String) : Except CompileError PolicyModule :=
  match parse source with
  | .error e => .error ⟨filename, source, .ofSyntax e⟩
  | .ok p =>
    match PolicyModule.ofPolicy v p with
    | .error e => .error ⟨filename, source, .ofMeaning e⟩
    | .ok m => .ok m

end GuildPolicy
