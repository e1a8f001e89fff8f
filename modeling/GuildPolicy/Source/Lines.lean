namespace GuildPolicy.Source

/-- The lines of a text, broken where positions start a new line: at a line feed, at a carriage
return, or at the two together. A line break at the very end starts no further line. -/
def lines : List Char → List (List Char)
  | [] => []
  | '\n' :: cs => [] :: lines cs
  | '\r' :: '\n' :: cs => [] :: lines cs
  | '\r' :: cs => [] :: lines cs
  | c :: cs =>
    match lines cs with
    | [] => [[c]]
    | first :: others => (c :: first) :: others

end GuildPolicy.Source
