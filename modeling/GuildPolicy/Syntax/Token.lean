import GuildPolicy.Source.Position
import GuildPolicy.Text.Escape

namespace GuildPolicy.Syntax

open GuildPolicy.Source

inductive TokenKind
  | braceOpen
  | braceClose
  | semicolon
  | comma
  | plus
  | minus
  | star
  | slash
  | percent
  | allow
  | deny
  | require
  | module
  | label
  | labels
  | type
  | true
  | false
  | identifier
  | string
  | integer
  | endOfFile
  deriving DecidableEq

def TokenKind.ofMark? : Char → Option TokenKind
  | '{' => some .braceOpen
  | '}' => some .braceClose
  | ';' => some .semicolon
  | ',' => some .comma
  | '+' => some .plus
  | '-' => some .minus
  | '*' => some .star
  | '/' => some .slash
  | '%' => some .percent
  | _ => none

def TokenKind.keywords : List (String × TokenKind) := [
  ("allow", .allow), ("deny", .deny), ("require", .require), ("module", .module),
  ("label", .label), ("labels", .labels), ("type", .type), ("true", .true), ("false", .false)]

/-- The kind of a word: its keyword, or an identifier. -/
def TokenKind.ofWord (word : String) : TokenKind :=
  (keywords.lookup word).getD .identifier

def TokenKind.text : TokenKind → String
  | .braceOpen => "'\x7b'"
  | .braceClose => "'\x7d'"
  | .semicolon => "';'"
  | .comma => "','"
  | .plus => "'+'"
  | .minus => "'-'"
  | .star => "'*'"
  | .slash => "'/'"
  | .percent => "'%'"
  | .allow => "'allow'"
  | .deny => "'deny'"
  | .require => "'require'"
  | .module => "'module'"
  | .label => "'label'"
  | .labels => "'labels'"
  | .type => "'type'"
  | .true => "'true'"
  | .false => "'false'"
  | .identifier => "identifier"
  | .string => "string literal"
  | .integer => "integer literal"
  | .endOfFile => "end of file"

/-- A piece of a policy text. The value of a string is what it stands for; any other token's is
its spelling. -/
structure Token where
  kind : TokenKind
  value : String
  span : Span
  deriving DecidableEq

def Token.endOfFile (p : Position) : Token := ⟨.endOfFile, "EOF", .point p⟩

def Token.text (t : Token) : String :=
  match t.kind with
  | .identifier => s!"identifier '{t.value}'"
  | .string => "string literal \"" ++ Text.escaped t.value ++ "\""
  | .integer => s!"integer literal {t.value}"
  | kind => kind.text

end GuildPolicy.Syntax
