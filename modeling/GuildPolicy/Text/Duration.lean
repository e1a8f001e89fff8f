namespace GuildPolicy.Text

/-- The fraction `n / 1000` of a unit: a point and up to three digits, nothing for zero. -/
def thousandths (n : Nat) : String :=
  if n = 0 then ""
  else
    let digits := [n / 100 % 10, n / 10 % 10, n % 10]
    let kept := (digits.reverse.dropWhile (· = 0)).reverse
    "." ++ String.join (kept.map toString)

/-- The largest unit of seconds, milliseconds and nanoseconds that is not zero, with a decimal
fraction without trailing zeros. -/
def duration (ms : Nat) : String :=
  if ms = 0 then "0ns"
  else if ms < 1000 then s!"{ms}ms"
  else toString (ms / 1000) ++ thousandths (ms % 1000) ++ "s"

end GuildPolicy.Text
