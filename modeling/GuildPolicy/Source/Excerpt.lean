import GuildPolicy.Source.Lines
import GuildPolicy.Source.Position
import GuildPolicy.Text.Blank

namespace GuildPolicy.Source

def spaces (n : Nat) : String := String.ofList (List.replicate n ' ')

/-- The columns of a line, counted from zero, between which a place is underlined: from its start to
the end of the first line, under the trimmed lines between, and up to its end on the last line.
Every line gets at least one caret. -/
def Span.underline (span : Span) (number : Nat) (line : List Char) : Nat × Nat :=
  let first := max span.start.line 1
  let last := max (max span.stop.line span.start.line) 1
  let start := if number = first then span.start.column - 1
    else line.length - (Text.trimStart line).length
  let stop := if number = last then min (span.stop.column - 1) line.length else line.length
  (start, max (stop - start) 1)

def Span.row (span : Span) (gutter number : Nat) (line : List Char) : String :=
  let (start, carets) := span.underline number line
  let label := toString number
  spaces (gutter - label.length) ++ label ++ " | " ++ String.ofList line ++ "\n" ++
    spaces gutter ++ " | " ++ spaces start ++ String.ofList (List.replicate carets '^') ++ "\n"

/-- A message with an excerpt of `text` that underlines `span`. -/
def excerpt (text : List Char) (filename : String) (span : Span) (message : String) : String :=
  let first := max span.start.line 1
  let last := max (max span.stop.line span.start.line) 1
  let gutter := (toString last).length
  let shown := ((lines text).drop (first - 1)).take (last + 1 - first)
  "error: " ++ message ++ "\n" ++
    spaces gutter ++ "--> " ++ filename ++ ":" ++ span.start.text ++ "\n" ++
    spaces gutter ++ " |\n" ++
    String.join ((shown.zipIdx first).map fun (line, number) => span.row gutter number line)

end GuildPolicy.Source
