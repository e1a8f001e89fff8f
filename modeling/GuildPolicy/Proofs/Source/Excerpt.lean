import GuildPolicy.Source.Excerpt

namespace GuildPolicy.Source

variable {text line : List Char} {span : Span}

/-- What stands above the source lines of an excerpt. -/
def heading (gutter : Nat) (filename : String) (place : Position) (message : String) : String :=
  "error: " ++ message ++ "\n" ++
    spaces gutter ++ "--> " ++ filename ++ ":" ++ place.text ++ "\n" ++
    spaces gutter ++ " |\n"

/-- A source line with its number, and carets under it after some blanks. -/
def marked (gutter number : Nat) (line : List Char) (blanks carets : Nat) : String :=
  spaces (gutter - (toString number).length) ++ toString number ++ " | " ++
    String.ofList line ++ "\n" ++
    spaces gutter ++ " | " ++ spaces blanks ++ String.ofList (List.replicate carets '^') ++ "\n"

/-- The last line that a span is on. -/
def Span.lastLine (span : Span) : Nat := max span.stop.line span.start.line

/-- The places that line numbers take up before the excerpt of a span. -/
def Span.gutter (span : Span) : Nat := (toString span.lastLine).length

/-- The rows of an excerpt for the lines of a span after the first. -/
def Span.laterRows (text : List Char) (span : Span) : String :=
  let later := ((lines text).drop span.start.line).take (span.lastLine - span.start.line)
  String.join ((later.zipIdx (span.start.line + 1)).map fun (line, number) =>
    span.row span.gutter number line)

theorem take_drop_eq_cons {α : Type} {xs : List α} {x : α} {i k : Nat} (h : xs[i]? = some x) :
    (xs.drop i).take (k + 1) = x :: (xs.drop (i + 1)).take k := by
  rw [List.drop_eq_getElem?_toList_append, h]
  rfl

section Lines

variable (filename message : String) (hfirst : 1 ≤ span.start.line)
include hfirst

theorem lastLine_eq : max (max span.stop.line span.start.line) 1 = span.lastLine :=
  Nat.max_eq_left (Nat.le_trans hfirst (Nat.le_max_right ..))

theorem excerpt_eq : excerpt text filename span message =
    heading span.gutter filename span.start message ++
      String.join ((((lines text).drop (span.start.line - 1)).take
          (span.lastLine + 1 - span.start.line)).zipIdx span.start.line |>.map
        fun (line, number) => span.row span.gutter number line) := by
  unfold excerpt heading Span.gutter
  dsimp only
  rw [lastLine_eq hfirst, Nat.max_eq_left hfirst]

theorem excerpt_of_no_line (h : (lines text).length < span.start.line) :
    excerpt text filename span message = heading span.gutter filename span.start message := by
  rw [excerpt_eq filename message hfirst, List.drop_of_length_le (Nat.le_sub_one_of_lt h),
    List.take_nil, List.zipIdx_nil, List.map_nil, String.join_nil, String.append_empty]

theorem row_start (line : List Char) : span.row span.gutter span.start.line line =
    marked span.gutter span.start.line line (span.start.column - 1)
      (max ((if span.start.line = span.lastLine then min (span.stop.column - 1) line.length
        else line.length) - (span.start.column - 1)) 1) := by
  rw [Span.row, Span.underline, lastLine_eq hfirst, Nat.max_eq_left hfirst, if_pos rfl]
  rfl

theorem excerpt_of_line (h : (lines text)[span.start.line - 1]? = some line) :
    excerpt text filename span message =
      heading span.gutter filename span.start message ++
        (span.row span.gutter span.start.line line ++ span.laterRows text) := by
  have hcount : span.lastLine + 1 - span.start.line = span.lastLine - span.start.line + 1 :=
    Nat.succ_sub (Nat.le_max_right ..)
  rw [excerpt_eq filename message hfirst, hcount, take_drop_eq_cons h, Nat.sub_add_cancel hfirst]
  rw [List.zipIdx_cons, List.map_cons, String.join_cons]
  rfl

end Lines

end GuildPolicy.Source
