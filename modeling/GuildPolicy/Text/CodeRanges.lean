namespace GuildPolicy.Text

/-- A set of characters, as closed intervals of code points in ascending order. -/
abbrev CodeRanges := List (Nat × Nat)

/-- Whether one of the intervals holds the character. -/
def CodeRanges.contains (ranges : CodeRanges) (c : Char) : Bool :=
  ranges.any fun (lo, hi) => lo ≤ c.toNat && c.toNat ≤ hi

end GuildPolicy.Text
