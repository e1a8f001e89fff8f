namespace GuildPolicy.Text

/-- The number that a non-empty run of ASCII digits writes. -/
def digits? (cs : List Char) : Option Nat :=
  if cs ≠ [] ∧ cs.all Char.isDigit then
    some (Nat.ofDigitChars 10 cs 0)
  else
    none

/-- A natural number below `bound`; a plus sign may lead. -/
def natBelow? (bound : Nat) (s : String) : Option Nat :=
  let unsigned := match s.toList with
    | '+' :: cs => cs
    | cs => cs
  (digits? unsigned).filter (· < bound)

/-- An integer of `bits` bits in two's complement; either sign may lead. -/
def intOfBits? (bits : Nat) (s : String) : Option Int :=
  let value := match s.toList with
    | '+' :: cs => (digits? cs).map Int.ofNat
    | '-' :: cs => (digits? cs).map fun n => -Int.ofNat n
    | cs => (digits? cs).map Int.ofNat
  value.filter fun n => -Int.pow 2 (bits - 1) ≤ n ∧ n < Int.pow 2 (bits - 1)

end GuildPolicy.Text
