import GuildPolicy.Source.Position

namespace GuildPolicy.Syntax

open GuildPolicy.Source

inductive LiteralKind
  | string
  | integer
  | boolean
  deriving DecidableEq

def LiteralKind.text : LiteralKind → String
  | .string => "string"
  | .integer => "integer"
  | .boolean => "boolean"

/-- A constant: the contents of a string, the digits of an integer, or the word of a truth value. -/
structure Literal where
  kind : LiteralKind
  value : String
  span : Span
  deriving DecidableEq

inductive Operator
  | add
  | subtract
  | multiply
  | divide
  | modulo
  deriving DecidableEq

def Operator.text : Operator → String
  | .add => "+"
  | .subtract => "-"
  | .multiply => "*"
  | .divide => "/"
  | .modulo => "%"

inductive Expression
  | literal (value : Literal)
  | binary (op : Operator) (left right : Expression) (span : Span)
  deriving DecidableEq

def Expression.span : Expression → Span
  | .literal value => value.span
  | .binary _ _ _ span => span

structure Name where
  text : String
  span : Span
  deriving DecidableEq

/-- An entry of a module block: a name and a constant. -/
structure Property where
  name : String
  value : Literal
  span : Span
  deriving DecidableEq

structure ModuleBlock where
  properties : List Property
  span : Span
  deriving DecidableEq

/-- The last property with a name, which is the one that counts. -/
def ModuleBlock.property? (block : ModuleBlock) (name : String) : Option Property :=
  block.properties.reverse.find? (·.name = name)

structure RequireBlock where
  types : List Name
  span : Span
  deriving DecidableEq

inductive RuleKind
  | allow
  | deny
  deriving DecidableEq

def RuleKind.text : RuleKind → String
  | .allow => "allow"
  | .deny => "deny"

/-- What a rule's subject acts on: anything, or the entities of one type. -/
inductive Target
  | any
  | type (name : String)
  deriving DecidableEq

structure Rule where
  kind : RuleKind
  subject : Name
  target : Target
  targetSpan : Span
  permissions : List Name
  span : Span
  deriving DecidableEq

inductive Statement
  | module (block : ModuleBlock)
  | require (block : RequireBlock)
  | rule (r : Rule)
  deriving DecidableEq

def Statement.span : Statement → Span
  | .module block => block.span
  | .require block => block.span
  | .rule r => r.span

structure Policy where
  statements : List Statement
  span : Span
  deriving DecidableEq

end GuildPolicy.Syntax
