namespace GuildPolicy

/-- A set of permissions, one bit each. All 128 bits are kept, also those that no permission has a
name for. -/
abbrev Mask := BitVec 128

namespace Mask

def empty : Mask := 0#128

def union (a b : Mask) : Mask := a ||| b

def minus (a b : Mask) : Mask := a &&& ~~~b

def inter (a b : Mask) : Mask := a &&& b

/-- Whether `a` holds all of `b`. -/
def has (a b : Mask) : Bool := a &&& b = b

/-- What is held already together with `allow`, less `deny`. -/
def grant (held allow deny : Mask) : Mask := (held.union allow).minus deny

def unionAll (masks : List Mask) : Mask := masks.foldl union empty

theorem getLsbD_empty (i : Nat) : empty.getLsbD i = false := BitVec.getLsbD_zero

theorem getLsbD_union (a b : Mask) (i : Nat) :
    (a.union b).getLsbD i = (a.getLsbD i || b.getLsbD i) :=
  BitVec.getLsbD_or

theorem getLsbD_inter (a b : Mask) (i : Nat) :
    (a.inter b).getLsbD i = (a.getLsbD i && b.getLsbD i) :=
  BitVec.getLsbD_and

theorem getLsbD_minus (a b : Mask) (i : Nat) :
    (a.minus b).getLsbD i = (a.getLsbD i && !b.getLsbD i) := by
  by_cases h : i < 128
  · simp [minus, h]
  · simp [BitVec.getLsbD_of_ge _ i (Nat.le_of_not_lt h)]

end Mask

end GuildPolicy
