import GuildPolicy.Text.Combining
import GuildPolicy.Text.Printable

namespace GuildPolicy.Text

def codePoint (c : Char) : List Char :=
  '\\' :: 'u' :: '{' :: (Nat.toDigits 16 c.toNat ++ ['}'])

/-- One character; `alone` says that no other character stands in front of it. Quotes and the
backslash get a backslash; NUL, tab, carriage return and line feed their usual letter; what does not
print, and a combining character that stands alone, its code point in hexadecimal. -/
def escapeChar (alone : Bool) (c : Char) : List Char :=
  match c with
  | '\x00' => ['\\', '0']
  | '\t' => ['\\', 't']
  | '\r' => ['\\', 'r']
  | '\n' => ['\\', 'n']
  | '\'' => ['\\', '\'']
  | '"' => ['\\', '"']
  | '\\' => ['\\', '\\']
  | c => if alone && isCombining c || !isPrintable c then codePoint c else [c]

def escapedChar (c : Char) : String := String.ofList (escapeChar true c)

def escaped (s : String) : String :=
  String.ofList <| match s.toList with
    | [] => []
    | c :: cs => escapeChar true c ++ cs.flatMap (escapeChar false)

end GuildPolicy.Text
