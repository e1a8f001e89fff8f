import GuildPolicy.Permission.Mask

namespace GuildPolicy.Mask

theorem eq_of_bits {a b : Mask} (h : ∀ i, a.getLsbD i = b.getLsbD i) : a = b :=
  BitVec.eq_of_getLsbD_eq fun i _ => h i

theorem getLsbD_grant (held allow deny : Mask) (i : Nat) :
    (held.grant allow deny).getLsbD i =
      ((held.getLsbD i || allow.getLsbD i) && !deny.getLsbD i) := by
  rw [grant, getLsbD_minus, getLsbD_union]

theorem getLsbD_foldl_union (masks : List Mask) (start : Mask) (i : Nat) :
    (masks.foldl union start).getLsbD i = (start.getLsbD i || masks.any (·.getLsbD i)) := by
  induction masks generalizing start with
  | nil => simp
  | cons m masks ih => rw [List.foldl_cons, ih, getLsbD_union, List.any_cons, Bool.or_assoc]

theorem getLsbD_unionAll (masks : List Mask) (i : Nat) :
    (unionAll masks).getLsbD i = masks.any (·.getLsbD i) := by
  rw [unionAll, getLsbD_foldl_union, getLsbD_empty, Bool.false_or]

@[simp] theorem unionAll_nil : unionAll [] = empty := rfl

theorem unionAll_append (a b : List Mask) : unionAll (a ++ b) = (unionAll a).union (unionAll b) := by
  apply eq_of_bits
  intro i
  rw [getLsbD_union, getLsbD_unionAll, getLsbD_unionAll, getLsbD_unionAll, List.any_append]

theorem unionAll_singleton (a : Mask) : unionAll [a] = a := by
  apply eq_of_bits
  intro i
  simp only [getLsbD_unionAll, List.any_cons, List.any_nil, Bool.or_false]

theorem unionAll_perm {a b : List Mask} (h : a.Perm b) : unionAll a = unionAll b := by
  apply eq_of_bits
  intro i
  rw [getLsbD_unionAll, getLsbD_unionAll, Bool.eq_iff_iff, List.any_eq_true, List.any_eq_true]
  simp only [h.mem_iff]

theorem union_empty (a : Mask) : a.union empty = a := BitVec.or_zero

theorem not_has_empty {b : Mask} (h : b ≠ .empty) : empty.has b = false :=
  decide_eq_false fun heq => h (heq.symm.trans BitVec.zero_and)

theorem empty_minus (a : Mask) : empty.minus a = empty := BitVec.zero_and

theorem minus_minus (a b c : Mask) : (a.minus b).minus c = a.minus (c.union b) := by
  apply eq_of_bits
  intro i
  simp only [getLsbD_minus, getLsbD_union, Bool.not_or, Bool.and_assoc, Bool.and_comm (!b.getLsbD i)]

theorem minus_inter {a b c : Mask} (h : ∀ i, c.getLsbD i = true → b.getLsbD i = true) :
    (a.minus b).inter c = empty := by
  apply eq_of_bits
  intro i
  rw [getLsbD_inter, getLsbD_minus, getLsbD_empty]
  cases hc : c.getLsbD i with
  | false => rw [Bool.and_false]
  | true => rw [h i hc, Bool.not_true, Bool.and_false, Bool.false_and]

end GuildPolicy.Mask
