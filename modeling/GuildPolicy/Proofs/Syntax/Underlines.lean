import GuildPolicy.Proofs.Source.Excerpt
import GuildPolicy.Proofs.Source.Lines
import GuildPolicy.Proofs.Syntax.Tokens

namespace GuildPolicy.Syntax

open GuildPolicy.Source GuildPolicy.Text

variable {before spelling blanks after : List Char} {kind : TokenKind} {value : String}
variable {ps : List Piece} {start : Position} {t : Token} {text piece : List Char}

/-- No lexeme ends inside of a line break. -/
theorem IsLexeme.last (h : IsLexeme kind value spelling) : spelling.getLast? ≠ some '\r' := by
  cases h with
  | mark h =>
    have hall : ∀ m ∈ marks, [m.1].getLast? ≠ some '\r' := by decide
    exact hall _ h
  | integer hne h =>
    intro hlast
    exact absurd (h _ (List.mem_of_getLast? hlast)) (by decide)
  | keyword h =>
    obtain ⟨c, cs, hspelling, hc, hcs⟩ := keyword_spelling h
    intro hlast
    rw [hspelling] at hlast
    rcases List.mem_cons.1 (List.mem_of_getLast? hlast) with rfl | hmem
    · exact absurd hc (by decide)
    · exact absurd (hcs _ hmem) (by decide)
  | identifier hc hcs =>
    intro hlast
    rcases List.mem_cons.1 (List.mem_of_getLast? hlast) with rfl | hmem
    · exact absurd hc (by decide)
    · exact absurd (hcs _ hmem) (by decide)
  | @string quote interior _ hquote =>
    rw [← List.cons_append, List.getLast?_concat]
    rcases hquote with rfl | rfl
    · decide
    · decide

/-- A token is the lexeme that the text has between the token's places. -/
structure Token.Spells (text : List Char) (t : Token) (before spelling after : List Char) :
    Prop where
  text : text = before ++ (spelling ++ after)
  lexeme : IsLexeme t.kind t.value spelling
  start : t.span.start = Position.origin.walk before (spelling ++ after)
  stop : t.span.stop = t.span.start.walk spelling after

example : excerpt "\r\r\n 'éà' x".toList "base.policy" ⟨⟨4, 3, 2⟩, ⟨10, 3, 6⟩⟩ "wrong" =
    "error: wrong\n --> base.policy:3:2\n  |\n3 |  'éà' x\n  |  ^^^^\n" := by
  decide +kernel

end GuildPolicy.Syntax
