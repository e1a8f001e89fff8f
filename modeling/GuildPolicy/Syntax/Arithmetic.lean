import GuildPolicy.Syntax.Error
import GuildPolicy.Text.Decimal

namespace GuildPolicy.Syntax

open GuildPolicy.Source

/-- Whether a value has 128 bits in two's complement. -/
def InRange (n : Int) : Prop := -Int.pow 2 127 ≤ n ∧ n < Int.pow 2 127

instance (n : Int) : Decidable (InRange n) := inferInstanceAs (Decidable (_ ∧ _))

def operand (op : Operator) (l : Literal) : Except SyntaxError Int :=
  if l.kind ≠ .integer then .error ⟨.operandKind op l.kind, l.span⟩
  else
    match Text.intOfBits? 128 l.value with
    | some n => .ok n
    | none => .error ⟨.invalidInteger l.value, l.span⟩

/-- Exact integers of 128 bits. Division rounds toward negative infinity and the remainder goes with
it. -/
def Operator.apply (op : Operator) (span : Span) (right : Literal) (a b : Int) :
    Except SyntaxError Int :=
  let inRange (n : Int) : Except SyntaxError Int :=
    if InRange n then .ok n else .error ⟨.overflow op, span⟩
  match op with
  | .add => inRange (a + b)
  | .subtract => inRange (a - b)
  | .multiply => inRange (a * b)
  | .divide =>
    if b = 0 then .error ⟨.divisionByZero, right.span⟩ else inRange (a.fdiv b)
  | .modulo =>
    if b = 0 then .error ⟨.divisionByZero, right.span⟩
    else
      match inRange (a.fdiv b) with
      | .ok q => .ok (a - q * b)
      | .error e => .error e

/-- The constant that an operation on two constants amounts to. -/
def Operator.combine (op : Operator) (left right : Literal) (span : Span) :
    Except SyntaxError Literal := do
  let a ← operand op left
  let b ← operand op right
  let n ← op.apply span right a b
  return ⟨.integer, toString n, span⟩

def Expression.fold : Expression → Except SyntaxError Literal
  | .literal value => .ok value
  | .binary op left right span => do
    let l ← left.fold
    let r ← right.fold
    op.combine l r span

end GuildPolicy.Syntax
