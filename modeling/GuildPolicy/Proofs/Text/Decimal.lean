import GuildPolicy.Text.Decimal

namespace GuildPolicy.Text

variable {cs : List Char} {s : String} {bits n : Nat} {i j : Int}

/-- A run of decimal digits, and the number that it writes. -/
structure IsDigits (cs : List Char) (n : Nat) : Prop where
  ne_nil : cs ≠ []
  digits : ∀ c ∈ cs, c.isDigit = true
  value : n = Nat.ofDigitChars 10 cs 0

/-- Decimal digits, which a sign may lead, and the integer that they write. -/
inductive IsNumeral : List Char → Int → Prop
  | digits {cs : List Char} {n : Nat} (h : IsDigits cs n) : IsNumeral cs n
  | plus {cs : List Char} {n : Nat} (h : IsDigits cs n) : IsNumeral ('+' :: cs) n
  | minus {cs : List Char} {n : Nat} (h : IsDigits cs n) : IsNumeral ('-' :: cs) (-n)

theorem digits?_eq_some_iff : digits? cs = some n ↔ IsDigits cs n := by
  rw [digits?]
  split
  · next h =>
    rw [Option.some.injEq]
    exact ⟨fun hn => ⟨h.1, List.all_eq_true.1 h.2, hn.symm⟩, fun hn => hn.value.symm⟩
  · next h => exact ⟨nofun, fun hn => absurd ⟨hn.ne_nil, List.all_eq_true.2 hn.digits⟩ h⟩

theorem IsDigits.first {c : Char} (h : IsDigits (c :: cs) n) : c.isDigit = true :=
  h.digits c (List.mem_cons_self ..)

/-- A numeral writes one integer only, since no sign is a digit. -/
theorem IsNumeral.unique (h : IsNumeral cs i) (h' : IsNumeral cs j) : i = j := by
  cases h with
  | digits h =>
    cases h' with
    | digits h' => rw [h.value, h'.value]
    | plus | minus => exact absurd h.first (by decide)
  | plus h =>
    cases h' with
    | digits h' => exact absurd h'.first (by decide)
    | plus h' => rw [h.value, h'.value]
  | minus h =>
    cases h' with
    | digits h' => exact absurd h'.first (by decide)
    | minus h' => rw [h.value, h'.value]

/-- Reading gives an integer exactly for a numeral of it, within the bounds. -/
theorem intOfBits?_eq_some_iff : intOfBits? bits s = some i ↔
    IsNumeral s.toList i ∧ -Int.pow 2 (bits - 1) ≤ i ∧ i < Int.pow 2 (bits - 1) := by
  rw [intOfBits?]
  rw [Option.filter_eq_some_iff, decide_eq_true_eq]
  refine and_congr_left fun hrange => ?_
  clear hrange
  constructor
  · intro h
    split at h
    all_goals
      obtain ⟨n, hn, rfl⟩ := Option.map_eq_some_iff.1 h
      have hdigits := digits?_eq_some_iff.1 hn
    · next hs => exact hs ▸ .plus hdigits
    · next hs => exact hs ▸ .minus hdigits
    · exact .digits hdigits
  · intro h
    generalize s.toList = cs at h
    cases h with
    | plus h => exact Option.map_eq_some_iff.2 ⟨_, digits?_eq_some_iff.2 h, rfl⟩
    | minus h => exact Option.map_eq_some_iff.2 ⟨_, digits?_eq_some_iff.2 h, rfl⟩
    | @digits cs n h =>
      split
      · exact absurd h.first (by decide)
      · exact absurd h.first (by decide)
      · exact Option.map_eq_some_iff.2 ⟨_, digits?_eq_some_iff.2 h, rfl⟩

theorem isDigits_repr (n : Nat) : IsDigits n.repr.toList n := by
  rw [Nat.toList_repr]
  exact
    { ne_nil := Nat.toDigits_ne_nil
      digits := fun _ hc => Nat.isDigit_of_mem_toDigits (by decide) (by decide) hc
      value := (Nat.ofDigitChars_toDigits (by decide) (by decide)).symm }

theorem isNumeral_toString (i : Int) : IsNumeral (toString i).toList i := by
  rw [Int.toString_eq_repr, Int.repr_eq_if]
  split
  · next h =>
    have hn := IsNumeral.digits (isDigits_repr i.toNat)
    rwa [Int.toNat_of_nonneg h] at hn
  · next h =>
    have hn := IsNumeral.minus (isDigits_repr (-i).toNat)
    rw [Int.toNat_of_nonneg (by omega), Int.neg_neg] at hn
    rwa [String.toList_append]

end GuildPolicy.Text
