import GuildPolicy.Guild.Resolver
import GuildPolicy.Proofs.Guild.Ledger

namespace GuildPolicy

/-- What an access vector allows a type on any target. -/
def TypeRef.allowed (a : TypeRef) (v : AccessVector) : Mask :=
  match a.resolve? v with
  | some s => v.allowed s
  | none => .empty

/-- What an access vector says about two types. -/
def TypeRef.onPair (a b : TypeRef) (v : AccessVector) (read : AccessVector → TypePair → Mask) :
    Mask :=
  match a.resolve? v, b.resolve? v with
  | some s, some t => read v ⟨s, t⟩
  | _, _ => .empty

namespace Manager

variable {m : Manager} {now : Nat} {detached : Bool} {g : Uuid} {p : Published}

theorem held_of_cached (h : (m.cached now g).1 = some p) : m.held g = some p :=
  IdleCache.peek_of_get h

theorem current_fst : (m.current now detached g).1 = (m.cached now g).1 := by
  rw [current]
  cases h : m.cached now g with
  | mk found m₁ =>
    cases found with
    | some p => rfl
    | none =>
      dsimp only
      split
      · rfl
      · split
        · rfl
        · rfl

theorem held_of_current (h : (m.current now detached g).1 = some p) : m.held g = some p :=
  held_of_cached (current_fst.symm.trans h)

theorem permissionsOf_eq (subject : TypeRef) :
    m.permissionsOf now detached g subject =
      (((m.current now detached g).1.elim .empty fun p => subject.allowed p.vector),
        (m.current now detached g).2) := by
  unfold permissionsOf TypeRef.allowed
  cases m.current now detached g with
  | mk found m₁ =>
    cases found with
    | none => rfl
    | some p =>
      dsimp only [Option.elim]
      cases subject.resolve? p.vector with
      | none => rfl
      | some id => rfl

theorem pairOf_eq (subject target : TypeRef) (read : AccessVector → TypePair → Mask) :
    m.pairOf now detached g subject target read =
      (((m.current now detached g).1.elim .empty fun p => subject.onPair target p.vector read),
        (m.current now detached g).2) := by
  unfold pairOf TypeRef.onPair
  cases m.current now detached g with
  | mk found m₁ =>
    cases found with
    | none => rfl
    | some p =>
      dsimp only [Option.elim]
      cases subject.resolve? p.vector with
      | none => rfl
      | some a =>
        cases target.resolve? p.vector with
        | none => rfl
        | some b => rfl

end Manager

namespace Resolver

theorem reload_manager (r : Resolver) (m : Manager) (now : Nat) (files : Files) (g : Uuid) :
    (r.reload m now files g).2.2 = (m.compileAll now files g).2 := by
  rw [reload]
  split
  · next h => rw [h]
  · next h => rw [h]

theorem reload_fst (r : Resolver) (m : Manager) (now : Nat) (files : Files) (g : Uuid) :
    (r.reload m now files g).1 = (m.compileAll now files g).1 := by
  rw [reload]
  split
  · next h => rw [h]
  · next h => rw [h]

theorem resolve_manager (r : Resolver) (m : Manager) (labels : Labels) (now : Nat)
    (detached : Bool) (q : Question) :
    (r.resolve m labels now detached q).2.2 = (m.current now detached q.guild).2 := by
  rw [resolve]
  split
  · next h => rw [h]
  · next h =>
    rw [h]
    split
    · rfl
    · rfl

end Resolver

end GuildPolicy
