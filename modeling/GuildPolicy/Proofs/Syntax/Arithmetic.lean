import GuildPolicy.Proofs.Syntax.Expressions
import GuildPolicy.Proofs.Text.Decimal
import Mathlib.Data.Rat.Floor
import Mathlib.Tactic.Linarith
import Mathlib.Tactic.NormNum

namespace GuildPolicy.Syntax

open GuildPolicy.Source GuildPolicy.Text

variable {op : Operator} {left right e : Expression} {span : Span} {l r : Literal} {a b m n : Int}

def Operator.divides : Operator → Bool
  | .divide | .modulo => true
  | .add | .subtract | .multiply => false

/-- What an operation on integers amounts to. Division rounds toward negative infinity, and the
remainder is what it leaves. -/
def Operator.exact (op : Operator) (a b : Int) : Int :=
  match op with
  | .add => a + b
  | .subtract => a - b
  | .multiply => a * b
  | .divide => ⌊(a / b : ℚ)⌋
  | .modulo => a - ⌊(a / b : ℚ)⌋ * b

/-- The value of an expression whose leaves are integers and whose divisors are not zero. -/
inductive Expression.HasValue : Expression → Int → Prop
  | literal {l : Literal} {n : Int} (hkind : l.kind = .integer) (h : IsNumeral l.value.toList n) :
      HasValue (.literal l) n
  | binary {op : Operator} {left right : Expression} {a b : Int} (hl : left.HasValue a)
      (hr : right.HasValue b) (hb : op.divides = true → b ≠ 0) (span : Span) :
      HasValue (.binary op left right span) (op.exact a b)

/-- An expression and all expressions in it. -/
def Expression.nodes : Expression → List Expression
  | .literal l => [.literal l]
  | .binary op left right span => .binary op left right span :: (left.nodes ++ right.nodes)

/-- An expression has a value of 128 bits and, if it is a remainder, so does the quotient. -/
structure Expression.Fits (e : Expression) : Prop where
  value : ∃ n, e.HasValue n ∧ InRange n
  quotient : ∀ left right span a b, e = .binary .modulo left right span → left.HasValue a →
    right.HasValue b → InRange ⌊(a / b : ℚ)⌋

def Expression.Calculable (e : Expression) : Prop := ∀ e' ∈ e.nodes, e'.Fits

theorem Expression.HasValue.unique (h : e.HasValue m) (h' : e.HasValue n) : m = n := by
  induction h generalizing n with
  | literal _ h =>
    cases h' with
    | literal _ h' => exact h.unique h'
  | binary _ _ _ _ ihl ihr =>
    cases h' with
    | binary hl' hr' => rw [ihl hl', ihr hr']

theorem floor_div (a b : Int) : ⌊(a / b : ℚ)⌋ = a.fdiv b := by
  have hpos (a : Int) {b : Int} (hb : 0 < b) : ⌊(a / b : ℚ)⌋ = a.fdiv b := by
    have hb' : (0 : ℚ) < b := by exact_mod_cast hb
    have hdiv := Int.mul_fdiv_add_fmod a b
    have hlow := Int.fmod_nonneg_of_pos a hb
    have hhigh := Int.fmod_lt_of_pos a hb
    rw [Int.floor_eq_iff, le_div_iff₀ hb', div_lt_iff₀ hb']
    constructor
    · have hle : a.fdiv b * b ≤ a := by linarith
      exact_mod_cast hle
    · have hlt : a < (a.fdiv b + 1) * b := by linarith
      exact_mod_cast hlt
  rcases Int.lt_trichotomy b 0 with hb | rfl | hb
  · rw [← Int.neg_fdiv_neg, ← hpos (-a) (Int.neg_pos_of_neg hb)]
    push_cast
    rw [neg_div_neg_eq]
  · simp
  · exact hpos a hb

theorem exact_modulo (a b : Int) : Operator.modulo.exact a b = a.fmod b := by
  rw [Operator.exact, floor_div, Int.fmod_def, Int.mul_comm]

theorem fmod_bounds (a : Int) (hb : b ≠ 0) :
    (0 < b ∧ 0 ≤ a.fmod b ∧ a.fmod b < b) ∨ (b < 0 ∧ b < a.fmod b ∧ a.fmod b ≤ 0) := by
  rcases Int.lt_or_gt_of_ne hb with hb | hb
  · have hpos : 0 < -b := Int.neg_pos_of_neg hb
    have hlow := Int.fmod_nonneg_of_pos (-a) hpos
    have hhigh := Int.fmod_lt_of_pos (-a) hpos
    rw [Int.neg_fmod_neg] at hlow hhigh
    exact .inr ⟨hb, by omega, by omega⟩
  · exact .inl ⟨hb, Int.fmod_nonneg_of_pos a hb, Int.fmod_lt_of_pos a hb⟩

theorem inRange_zero : InRange 0 := by decide

theorem inRange_fmod (a : Int) (hb : b ≠ 0) (h : InRange b) : InRange (a.fmod b) := by
  have hzero := inRange_zero
  unfold InRange at *
  rcases fmod_bounds a hb with ⟨-, hlow, hhigh⟩ | ⟨-, hlow, hhigh⟩
  · exact ⟨by omega, by omega⟩
  · exact ⟨by omega, by omega⟩

/-- A constant that stands for an integer of 128 bits. -/
structure Literal.Holds (l : Literal) (n : Int) : Prop where
  kind : l.kind = .integer
  numeral : IsNumeral l.value.toList n
  range : InRange n

theorem operand_eq_ok_iff : operand op l = .ok n ↔ l.Holds n := by
  rw [operand]
  split
  · next hkind => exact ⟨nofun, fun h => absurd h.kind hkind⟩
  next hkind =>
  have hread : intOfBits? 128 l.value = some n ↔ IsNumeral l.value.toList n ∧ InRange n :=
    intOfBits?_eq_some_iff
  rw [not_not] at hkind
  cases hn : intOfBits? 128 l.value with
  | none =>
    rw [hn] at hread
    exact ⟨nofun, fun h => absurd (hread.2 ⟨h.numeral, h.range⟩) nofun⟩
  | some n' =>
    rw [hn, Option.some.injEq] at hread
    dsimp only
    rw [Except.ok.injEq, hread]
    exact ⟨fun h => ⟨hkind, h.1, h.2⟩, fun h => ⟨h.numeral, h.range⟩⟩

theorem holds_result (span : Span) (h : InRange n) :
    Literal.Holds ⟨.integer, toString n, span⟩ n :=
  ⟨rfl, isNumeral_toString n, h⟩

/-- An operation on integers of 128 bits gives what it exactly amounts to, or fails. -/
theorem apply_exact_iff (hb : InRange b) : op.apply span r a b = .ok n ↔
    (op.divides = true → b ≠ 0) ∧ InRange (op.exact a b) ∧
      (op = .modulo → InRange ⌊(a / b : ℚ)⌋) ∧ n = op.exact a b := by
  have herror (e : SyntaxError) : Except.error e ≠ Except.ok n := nofun
  have hrange (m : Int) :
      (if InRange m then Except.ok m else .error (⟨.overflow op, span⟩ : SyntaxError)) = .ok n ↔
        InRange m ∧ n = m := by
    by_cases h : InRange m
    · rw [if_pos h]
      exact ⟨fun hn => ⟨h, (Except.ok.inj hn).symm⟩, fun hn => congrArg _ hn.2.symm⟩
    · rw [if_neg h]
      exact ⟨fun hn => absurd hn (herror _), fun hn => absurd hn.1 h⟩
  cases op with
  | add | subtract | multiply =>
    exact (hrange _).trans ⟨fun h => ⟨fun hop => absurd hop Bool.false_ne_true, h.1,
      fun hop => Operator.noConfusion hop, h.2⟩, fun h => ⟨h.2.1, h.2.2.2⟩⟩
  | divide =>
    rw [Operator.apply, Operator.exact, floor_div]
    by_cases hzero : b = 0
    · rw [if_pos hzero]
      exact ⟨fun hn => absurd hn (herror _), fun h => absurd hzero (h.1 rfl)⟩
    · rw [if_neg hzero]
      exact (hrange _).trans ⟨fun h => ⟨fun _ => hzero, h.1, fun hop => Operator.noConfusion hop,
        h.2⟩, fun h => ⟨h.2.1, h.2.2.2⟩⟩
  | modulo =>
    rw [Operator.apply, exact_modulo, floor_div]
    by_cases hzero : b = 0
    · rw [if_pos hzero]
      exact ⟨fun hn => absurd hn (herror _), fun h => absurd hzero (h.1 rfl)⟩
    rw [if_neg hzero]
    dsimp only
    by_cases hq : InRange (a.fdiv b)
    · rw [if_pos hq, Except.ok.injEq, ← Int.mul_comm, ← Int.fmod_def, eq_comm]
      exact ⟨fun hn => ⟨fun _ => hzero, inRange_fmod a hzero hb, fun _ => hq, hn⟩,
        fun h => h.2.2.2⟩
    · rw [if_neg hq]
      exact ⟨fun hn => absurd hn (herror _), fun h => absurd (h.2.2.1 rfl) hq⟩

theorem calculable_binary_iff : (Expression.binary op left right span).Calculable ↔
    (Expression.binary op left right span).Fits ∧ left.Calculable ∧ right.Calculable := by
  rw [Expression.Calculable, Expression.nodes, List.forall_mem_cons, List.forall_mem_append]
  exact Iff.rfl

theorem fits_literal_iff : (∃ n, l.Holds n) ↔ (Expression.literal l).Fits := by
  constructor
  · rintro ⟨n, h⟩
    exact ⟨⟨n, .literal h.kind h.numeral, h.range⟩, nofun⟩
  · rintro ⟨⟨n, hvalue, hrange⟩, -⟩
    cases hvalue with
    | literal hkind h => exact ⟨n, hkind, h, hrange⟩

theorem fits_binary_iff (hl : left.HasValue a) (hr : right.HasValue b) :
    (Expression.binary op left right span).Fits ↔ (op.divides = true → b ≠ 0) ∧
      InRange (op.exact a b) ∧ (op = .modulo → InRange ⌊(a / b : ℚ)⌋) := by
  constructor
  · rintro ⟨⟨n, hvalue, hrange⟩, hquotient⟩
    cases hvalue with
    | binary hl' hr' hb =>
      rw [hl'.unique hl, hr'.unique hr] at hrange
      rw [hr'.unique hr] at hb
      refine ⟨hb, hrange, ?_⟩
      rintro rfl
      exact hquotient left right span a b rfl hl hr
  · rintro ⟨hb, hrange, hquotient⟩
    refine ⟨⟨_, .binary hl hr hb span, hrange⟩, ?_⟩
    rintro left right span a' b' he hl' hr'
    cases he
    rw [hl'.unique hl, hr'.unique hr]
    exact hquotient rfl

/-- An expression comes to a constant for an integer: this integer is its value, and all values on
the way fit. -/
def Expression.Comes (e : Expression) : Prop :=
  ∀ n, (∃ l, e.fold = .ok l ∧ l.Holds n) ↔ e.Calculable ∧ e.HasValue n

theorem comes_literal (l : Literal) : (Expression.literal l).Comes := by
  intro n
  have hnodes : (Expression.literal l).Calculable ↔ (Expression.literal l).Fits :=
    List.forall_mem_singleton
  rw [hnodes, ← fits_literal_iff]
  constructor
  · rintro ⟨_, hfold, h⟩
    cases hfold
    exact ⟨⟨n, h⟩, .literal h.kind h.numeral⟩
  · rintro ⟨⟨m, h⟩, hvalue⟩
    have hm : (Expression.literal l).HasValue m := .literal h.kind h.numeral
    rw [hvalue.unique hm]
    exact ⟨l, rfl, h⟩

theorem fold_binary_iff (hl : left.Comes) (hr : right.Comes) :
    (Expression.binary op left right span).fold = .ok l ↔
      (Expression.binary op left right span).Calculable ∧
        ∃ n, (Expression.binary op left right span).HasValue n ∧
          l = ⟨.integer, toString n, span⟩ := by
  rw [fold_operation_eq_ok_iff, calculable_binary_iff]
  constructor
  · rintro ⟨l', r', hfl, hfr, hcombine⟩
    obtain ⟨a, b, n, ha, hb, hn, rfl⟩ := combine_eq_ok_iff.1 hcombine
    obtain ⟨hcl, hvl⟩ := (hl a).1 ⟨l', hfl, operand_eq_ok_iff.1 ha⟩
    obtain ⟨hcr, hvr⟩ := (hr b).1 ⟨r', hfr, operand_eq_ok_iff.1 hb⟩
    obtain ⟨hzero, hrange, hquotient, rfl⟩ :=
      (apply_exact_iff (operand_eq_ok_iff.1 hb).range).1 hn
    have hfits : (Expression.binary op left right span).Fits :=
      (fits_binary_iff hvl hvr).2 ⟨hzero, hrange, hquotient⟩
    exact ⟨⟨hfits, hcl, hcr⟩, _, .binary hvl hvr hzero span, rfl⟩
  · rintro ⟨⟨hfits, hcl, hcr⟩, n, hvalue, rfl⟩
    cases hvalue with
    | @binary _ _ _ a b hvl hvr =>
      obtain ⟨l', hfl, ha⟩ := (hl a).2 ⟨hcl, hvl⟩
      obtain ⟨r', hfr, hb⟩ := (hr b).2 ⟨hcr, hvr⟩
      obtain ⟨hzero, hrange, hquotient⟩ := (fits_binary_iff hvl hvr).1 hfits
      have hn : op.apply span r' a b = .ok (op.exact a b) :=
        (apply_exact_iff hb.range).2 ⟨hzero, hrange, hquotient, rfl⟩
      exact ⟨l', r', hfl, hfr, combine_eq_ok_iff.2
        ⟨a, b, _, operand_eq_ok_iff.2 ha, operand_eq_ok_iff.2 hb, hn, rfl⟩⟩

theorem comes (e : Expression) : e.Comes := by
  induction e with
  | literal l => exact comes_literal l
  | binary op left right span ihl ihr =>
    intro n
    constructor
    · rintro ⟨_, hfold, h⟩
      obtain ⟨hcalculable, m, hvalue, rfl⟩ := (fold_binary_iff ihl ihr).1 hfold
      rw [h.numeral.unique (isNumeral_toString m)]
      exact ⟨hcalculable, hvalue⟩
    · rintro ⟨hcalculable, hvalue⟩
      refine ⟨_, (fold_binary_iff ihl ihr).2 ⟨hcalculable, n, hvalue, rfl⟩, ?_⟩
      obtain ⟨m, hm, hrange⟩ := (calculable_binary_iff.1 hcalculable).1.value
      rw [← hvalue.unique hm] at hrange
      exact holds_result span hrange

/-- The quotient of a division is rounded down, so that what a remainder leaves of the divisor is
smaller than it and on its side of zero. -/
theorem exact_modulo_bounds (a : Int) (hb : b ≠ 0) :
    a = ⌊(a / b : ℚ)⌋ * b + Operator.modulo.exact a b ∧
      (Operator.modulo.exact a b = 0 ∨ (Operator.modulo.exact a b).sign = b.sign) ∧
      |Operator.modulo.exact a b| < |b| := by
  refine ⟨by rw [Operator.exact]; omega, ?_⟩
  rw [exact_modulo]
  rcases fmod_bounds a hb with ⟨hpos, hlow, hhigh⟩ | ⟨hneg, hlow, hhigh⟩
  · refine ⟨?_, by rwa [abs_of_nonneg hlow, abs_of_pos hpos]⟩
    rcases hlow.eq_or_lt with hzero | hlow
    · exact .inl hzero.symm
    · exact .inr (by rw [Int.sign_eq_one_of_pos hlow, Int.sign_eq_one_of_pos hpos])
  · refine ⟨?_, by rw [abs_of_nonpos hhigh, abs_of_neg hneg]; omega⟩
    rcases hhigh.eq_or_lt with hzero | hhigh
    · exact .inl hzero
    · exact .inr (by rw [Int.sign_eq_neg_one_of_neg hhigh, Int.sign_eq_neg_one_of_neg hneg])

/-- An expression is carried out exactly if it is a constant, which then stays as it is, or if all
values in it exist and have 128 bits; what it is carried out to is its value in decimal, in the
place of the expression. -/
theorem fold_exact (e : Expression) :
    ((∃ l, e.fold = .ok l) ↔ (∃ l, e = .literal l) ∨ e.Calculable) ∧
    (∀ l, e = .literal l → e.fold = .ok l) ∧
    (∀ op left right span l, e = .binary op left right span → e.fold = .ok l →
      ∃ n, e.HasValue n ∧ l = ⟨.integer, toString n, e.span⟩) ∧
    ∀ a b : Int, b ≠ 0 → a = ⌊(a / b : ℚ)⌋ * b + Operator.modulo.exact a b ∧
      (Operator.modulo.exact a b = 0 ∨ (Operator.modulo.exact a b).sign = b.sign) ∧
      |Operator.modulo.exact a b| < |b| := by
  refine ⟨?_, ?_, ?_, fun a b hb => exact_modulo_bounds a hb⟩
  · cases e with
    | literal l => exact ⟨fun _ => .inl ⟨l, rfl⟩, fun _ => ⟨l, rfl⟩⟩
    | binary op left right span =>
      have hfold (l : Literal) : (Expression.binary op left right span).fold = .ok l ↔ _ :=
        fold_binary_iff (comes left) (comes right)
      constructor
      · rintro ⟨l, hl⟩
        exact .inr ((hfold l).1 hl).1
      · rintro (⟨l, ⟨⟩⟩ | hcalculable)
        obtain ⟨n, hvalue, -⟩ := (calculable_binary_iff.1 hcalculable).1.value
        exact ⟨_, (hfold _).2 ⟨hcalculable, n, hvalue, rfl⟩⟩
  · rintro l rfl
    rfl
  · rintro op left right span l rfl hl
    exact ((fold_binary_iff (comes left) (comes right)).1 hl).2

def integerConstant (value : String) : Expression := .literal ⟨.integer, value, .point .origin⟩

/-- The remainder of 7 and zero less 2. -/
def remainderBelow : Expression :=
  .binary .modulo (integerConstant "7")
    (.binary .subtract (integerConstant "0") (integerConstant "2") (.point ⟨4, 1, 5⟩))
    ⟨.origin, ⟨6, 1, 7⟩⟩

/-- The least integer of 128 bits, divided by `-1`. -/
def quotientBeyond : Expression :=
  .binary .divide (integerConstant "-170141183460469231731687303715884105728")
    (integerConstant "-1") (.point .origin)

theorem fold_exact_negative :
    remainderBelow.Calculable ∧
    (∃ n, remainderBelow.HasValue n ∧
      remainderBelow.fold = .ok ⟨.integer, toString n, ⟨.origin, ⟨6, 1, 7⟩⟩⟩ ∧ n = -1) ∧
    ¬quotientBeyond.Calculable ∧
    (integerConstant "+").fold = .ok ⟨.integer, "+", .point .origin⟩ ∧
    |Operator.modulo.exact 7 (-2)| < |-2| := by
  have hfold : remainderBelow.fold = .ok ⟨.integer, "-1", ⟨.origin, ⟨6, 1, 7⟩⟩⟩ := rfl
  obtain ⟨hok, -, hvalue, hbounds⟩ := fold_exact remainderBelow
  obtain ⟨n, hn, hl⟩ := hvalue _ _ _ _ _ rfl hfold
  refine ⟨?_, ⟨n, hn, hl ▸ hfold, ?_⟩, fun h => ?_, (fold_exact _).2.1 _ rfl,
    (hbounds 7 (-2) (by decide)).2.2⟩
  · rcases hok.1 ⟨_, hfold⟩ with ⟨l, ⟨⟩⟩ | h
    exact h
  · have htext : toString n = toString (-1 : Int) := (congrArg Literal.value hl).symm
    have hnumeral := isNumeral_toString n
    rw [htext] at hnumeral
    exact hnumeral.unique (isNumeral_toString (-1))
  · obtain ⟨l, hl⟩ := (fold_exact quotientBeyond).1.2 (.inr h)
    have hfails : quotientBeyond.fold = .error ⟨.overflow .divide, .point .origin⟩ := rfl
    rw [hfails] at hl
    cases hl

end GuildPolicy.Syntax
