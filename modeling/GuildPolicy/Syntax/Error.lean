import GuildPolicy.Syntax.Token
import GuildPolicy.Syntax.Tree

namespace GuildPolicy.Syntax

open GuildPolicy.Source

inductive SyntaxFault
  | unexpectedCharacter (c : Char)
  | unterminatedString
  | invalidEscape (c : Char)
  | expected (kinds : List TokenKind) (found : Token)
  | unexpected (found : Token)
  | secondModule
  | unknownProperty (name : String)
  /-- Arithmetic on something else than an integer. -/
  | operandKind (op : Operator) (kind : LiteralKind)
  /-- An operand without a value of 128 bits. -/
  | invalidInteger (value : String)
  | overflow (op : Operator)
  | divisionByZero
  deriving DecidableEq

def propertyNames : List String := ["name", "author", "version"]

def SyntaxFault.message : SyntaxFault → String
  | .unexpectedCharacter c => "Unexpected character '" ++ Text.escapedChar c ++ "'"
  | .unterminatedString => "Unterminated string literal"
  | .invalidEscape c => "Invalid escape sequence: '\\" ++ Text.escapedChar c ++ "'"
  | .expected kinds found =>
    "Expected " ++ " or ".intercalate (kinds.map TokenKind.text) ++ ", found " ++ found.text
  | .unexpected found => "Unexpected " ++ found.text
  | .secondModule => "Only one module block is allowed per policy file"
  | .unknownProperty name =>
    s!"Unknown module property '{name}' (expected one of: " ++ ", ".intercalate propertyNames ++ ")"
  | .operandKind op kind =>
    "Operator '" ++ op.text ++ "' expects integer operands, found " ++ kind.text
  | .invalidInteger value => s!"Invalid integer value: {value}"
  | .overflow op => "Integer overflow in '" ++ op.text ++ "' expression"
  | .divisionByZero => "Division by zero"

structure SyntaxError where
  fault : SyntaxFault
  span : Span
  deriving DecidableEq

def SyntaxError.message (e : SyntaxError) : String := e.fault.message

/-- The message and where the text it is about begins. -/
def SyntaxError.text (e : SyntaxError) : String := e.message ++ " at " ++ e.span.start.text

end GuildPolicy.Syntax
