import GuildPolicy.Source.Position
import GuildPolicy.Syntax.Lexer
import GuildPolicy.Text.Utf8

namespace GuildPolicy.Syntax

open GuildPolicy.Source GuildPolicy.Text

/-- The characters that are tokens of their own. -/
def marks : List (Char × TokenKind) := [
  ('{', .braceOpen), ('}', .braceClose), (';', .semicolon), (',', .comma), ('+', .plus),
  ('-', .minus), ('*', .star), ('/', .slash), ('%', .percent)]

/-- What may follow a backslash in a string, and the character that the two stand for. -/
def escapes : List (Char × Char) := [
  ('n', '\n'), ('r', '\r'), ('t', '\t'), ('f', '\x0c'), ('v', '\x0b'), ('"', '"'), ('\'', '\''),
  ('\\', '\\')]

/-- What stands between two quotes, and the text that it means. -/
inductive IsInterior (quote : Char) : List Char → List Char → Prop
  | nil : IsInterior quote [] []
  | char {c : Char} {cs value : List Char} (hquote : c ≠ quote) (hbackslash : c ≠ '\\')
      (h : IsInterior quote cs value) : IsInterior quote (c :: cs) (c :: value)
  | escape {e c : Char} {cs value : List Char} (he : (e, c) ∈ escapes)
      (h : IsInterior quote cs value) : IsInterior quote ('\\' :: e :: cs) (c :: value)

/-- A lexeme: the kind and the value of its token, and its spelling. -/
inductive IsLexeme : TokenKind → String → List Char → Prop
  | mark {c : Char} {kind : TokenKind} (h : (c, kind) ∈ marks) :
      IsLexeme kind (String.singleton c) [c]
  | integer {cs : List Char} (hne : cs ≠ []) (h : ∀ c ∈ cs, c.isDigit = true) :
      IsLexeme .integer (String.ofList cs) cs
  | keyword {word : String} {kind : TokenKind} (h : (word, kind) ∈ TokenKind.keywords) :
      IsLexeme kind word word.toList
  | identifier {c : Char} {cs : List Char} (hc : beginsWord c = true)
      (hcs : ∀ d ∈ cs, continuesWord d = true)
      (hkey : String.ofList (c :: cs) ∉ TokenKind.keywords.map Prod.fst) :
      IsLexeme .identifier (String.ofList (c :: cs)) (c :: cs)
  | string {quote : Char} {interior value : List Char} (hquote : quote = '"' ∨ quote = '\'')
      (h : IsInterior quote interior value) :
      IsLexeme .string (String.ofList value) (quote :: (interior ++ [quote]))

/-- A lexeme in a text, with the blanks in front of it. -/
structure Piece where
  blanks : List Char
  kind : TokenKind
  value : String
  spelling : List Char

/-- The piece is a lexeme after blanks, and no longer one begins where it does. -/
structure Piece.Greedy (p : Piece) (rest : List Char) : Prop where
  blanks : ∀ c ∈ p.blanks, isBlank c = true
  lexeme : IsLexeme p.kind p.value p.spelling
  longest : ∀ {kind value spelling}, IsLexeme kind value spelling →
    spelling <+: p.spelling ++ rest → spelling.length ≤ p.spelling.length

/-- A text is made of pieces, each of them taken greedily, and of blanks after the last. -/
inductive IsCut : List Char → List Piece → List Char → Prop
  | blanks {cs : List Char} (h : ∀ c ∈ cs, isBlank c = true) : IsCut cs [] cs
  | piece {p : Piece} {rest blanks : List Char} {ps : List Piece} (hp : p.Greedy rest)
      (h : IsCut rest ps blanks) : IsCut (p.blanks ++ (p.spelling ++ rest)) (p :: ps) blanks

/-- The bytes of a text from the start of a span to its end. -/
def slice (text : List Char) (span : Span) : List UInt8 :=
  ((encodeUtf8 text).take span.stop.offset).drop span.start.offset

/-- The spans in front of tokens, each from the end of the token before it. -/
def gaps (start : Position) : List Token → List Span
  | [] => []
  | t :: ts => ⟨start, t.span.start⟩ :: gaps t.span.stop ts

/-- The tokens from a place on are the lexemes of the pieces in their order, and the end of the text
after them. -/
structure Lexed.Shows (l : Lexed) (start : Position) (text : List Char) (ps : List Piece)
    (blanks : List Char) : Prop where
  tokens : l.toList.map (fun t => (t.kind, t.value, slice text t.span)) =
    ps.map (fun p => (p.kind, p.value, encodeUtf8 p.spelling)) ++ [(.endOfFile, "EOF", [])]
  gaps : (gaps start l.toList).map (slice text) =
    ps.map (fun p => encodeUtf8 p.blanks) ++ [encodeUtf8 blanks]
  from_start : ∀ t ∈ l.toList, start.offset ≤ t.span.start.offset
  ordered : l.toList.Pairwise fun t u => t.span.stop.offset ≤ u.span.start.offset
  inner : ∀ t ∈ l.tokens, t.kind ≠ .endOfFile ∧ t.span.start.offset < t.span.stop.offset
  stop : l.stop.offset = (encodeUtf8 text).length

end GuildPolicy.Syntax
