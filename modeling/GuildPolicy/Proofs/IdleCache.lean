import GuildPolicy.IdleCache

namespace GuildPolicy.IdleCache

variable {κ ν : Type} [DecidableEq κ] {c : IdleCache κ ν} {now : Nat} {k k' : κ} {v w : ν}

/-- The value under a key, expired or not. -/
def peek (c : IdleCache κ ν) (k : κ) : Option ν := (c.slots.get? k).map Slot.value

theorem get_of_peek_eq_none (h : c.peek k = none) : c.get now k = (none, c) := by
  rw [peek, Option.map_eq_none_iff] at h
  rw [get, h]

theorem peek_of_get (h : (c.get now k).1 = some v) : c.peek k = some v := by
  rw [get] at h
  rw [peek]
  cases hs : c.slots.get? k with
  | none =>
    rw [hs] at h
    cases h
  | some s =>
    simp only [hs] at h
    split at h
    · cases h
    · exact h

theorem peek_get_self : (c.get now k).2.peek k = (c.get now k).1 := by
  rw [get]
  cases hs : c.slots.get? k with
  | none => simp [peek, hs]
  | some s =>
    dsimp only
    split
    · simp [peek, Table.get?_erase]
    · simp [peek]

theorem peek_get_of_ne (h : k ≠ k') : (c.get now k).2.peek k' = c.peek k' := by
  rw [get]
  cases hs : c.slots.get? k with
  | none => rfl
  | some s =>
    dsimp only
    split
    · simp only [peek, Table.get?_erase, if_neg h]
    · simp only [peek, Table.get?_insert_of_ne h]

theorem peek_of_peek_get (h : (c.get now k).2.peek k' = some v) : c.peek k' = some v := by
  by_cases hk : k = k'
  · subst hk
    rw [peek_get_self] at h
    exact peek_of_get h
  · rwa [peek_get_of_ne hk] at h

theorem peek_of_filter {keep : κ → Slot ν → Bool}
    (h : ({ c with slots := c.slots.filter keep } : IdleCache κ ν).peek k = some v) :
    c.peek k = some v := by
  simp only [peek, Table.get?_filter, Option.map_eq_some_iff, Option.filter_eq_some_iff] at h ⊢
  obtain ⟨s, ⟨hs, _⟩, hv⟩ := h
  exact ⟨s, hs, hv⟩

theorem peek_of_evict (h : (c.evict now).peek k = some v) : c.peek k = some v := by
  rw [evict] at h
  dsimp only at h
  split at h
  · exact peek_of_filter h
  · exact peek_of_filter (peek_of_filter h)

theorem peek_insert_self : (c.insert now k v).peek k = some v := by
  simp only [insert, peek, Table.get?_insert_self, Option.map_some]

theorem peek_of_peek_insert (hk : k ≠ k') (h : (c.insert now k v).peek k' = some w) :
    c.peek k' = some w := by
  simp only [insert, peek, Table.get?_insert_of_ne hk] at h
  split at h
  · exact peek_of_evict h
  · exact h

/-- An insertion costs another key its value only if the cache was full. -/
theorem peek_insert_of_ne (hk : k ≠ k') : (c.insert now k v).peek k' = c.peek k' ∨
    (c.insert now k v).peek k' = none ∧ c.capacity ≤ c.size := by
  by_cases hfull : c.capacity ≤ c.size
  · cases hw : (c.insert now k v).peek k' with
    | none => exact .inr ⟨rfl, hfull⟩
    | some w => exact .inl (peek_of_peek_insert hk hw).symm
  · refine .inl ?_
    have hroom : ¬(!c.slots.contains k && decide (c.capacity ≤ c.size)) = true := by
      simp only [hfull, decide_false, Bool.and_false, Bool.false_eq_true, not_false_eq_true]
    rw [insert, if_neg hroom, peek, peek, Table.get?_insert_of_ne hk]

theorem lifetime_get : (c.get now k).2.lifetime = c.lifetime := by
  rw [get]
  split
  · rfl
  · split
    · rfl
    · rfl

theorem lifetime_insert : (c.insert now k v).lifetime = c.lifetime := by
  rw [insert]
  split
  · rw [evict]
    dsimp only
    split
    · rfl
    · rfl
  · rfl

theorem get_of_slot {s : Slot ν} (hs : c.slots.get? k = some s)
    (hl : now - s.lastUse < c.lifetime) :
    c.get now k = (some s.value, { c with slots := c.slots.insert k ⟨s.value, now⟩ }) := by
  have hfresh : ¬c.isExpired now s = true := by
    rw [isExpired, decide_eq_true_eq]
    omega
  simp only [get, hs, if_neg hfresh]

/-- A value that was inserted is there until it expires, unless it is pushed out. -/
theorem get_insert_self {now' : Nat} (hl : now' - now < c.lifetime) :
    ((c.insert now k v).get now' k).1 = some v := by
  have hs : (c.insert now k v).slots.get? k = some ⟨v, now⟩ := by
    rw [insert, Table.get?_insert_self]
  rw [get_of_slot hs (by rw [lifetime_insert]; exact hl)]

theorem get_get_self {now' : Nat} (h : (c.get now k).1 = some v) (hl : now' - now < c.lifetime) :
    ((c.get now k).2.get now' k).1 = some v := by
  cases hs : c.slots.get? k with
  | none =>
    rw [get, hs] at h
    cases h
  | some s =>
    by_cases hfresh : now - s.lastUse < c.lifetime
    · have hget := get_of_slot hs hfresh
      rw [hget] at h ⊢
      cases h
      have hslot := Table.get?_insert_self c.slots k (⟨s.value, now⟩ : Slot ν)
      exact congrArg Prod.fst (get_of_slot (c := { c with slots := _ }) hslot hl)
    · have hexpired : c.isExpired now s = true := by
        rw [isExpired, decide_eq_true_eq]
        omega
      simp only [get, hs, if_pos hexpired] at h
      cases h

theorem peek_remove_self : (c.remove k).2.peek k = none := by
  simp only [remove, peek, Table.get?_erase, ↓reduceIte, Option.map_none]

theorem peek_remove_of_ne (h : k ≠ k') : (c.remove k).2.peek k' = c.peek k' := by
  simp only [remove, peek, Table.get?_erase, if_neg h]

theorem peek_retain (keep : κ → ν → Bool) : (c.retain keep).peek k = (c.peek k).filter (keep k) := by
  rw [retain, peek, peek, Table.get?_filter]
  cases c.slots.get? k with
  | none => rfl
  | some s =>
    simp only [Option.filter, Option.map_some]
    split <;> rfl

section Slots

variable {s : Slot ν}

/-- What is read was used less than a lifetime ago. -/
theorem slot_of_get (h : (c.get now k).1 = some v) :
    ∃ used, c.slots.get? k = some ⟨v, used⟩ ∧ now - used < c.lifetime := by
  rw [get] at h
  cases hs : c.slots.get? k with
  | none =>
    rw [hs] at h
    cases h
  | some s =>
    simp only [hs] at h
    split at h
    · cases h
    · next hfresh =>
      cases h
      rw [isExpired, decide_eq_true_eq, Nat.not_le] at hfresh
      exact ⟨s.lastUse, rfl, hfresh⟩

theorem slot_of_slot_get (h : (c.get now k).2.slots.get? k' = some s) :
    c.slots.get? k' = some s ∨ k' = k ∧ s.lastUse = now ∧ (c.get now k).1 = some s.value := by
  rw [get] at h ⊢
  cases hs : c.slots.get? k with
  | none =>
    rw [hs] at h
    exact .inl h
  | some s' =>
    cases hexpired : c.isExpired now s' with
    | true =>
      simp only [hs, hexpired, ↓reduceIte, Table.get?_erase] at h
      split at h
      · cases h
      · exact .inl h
    | false =>
      simp only [hs, hexpired, Bool.false_eq_true, ↓reduceIte, Table.get?_insert] at h ⊢
      split at h
      · next hk =>
        cases h
        exact .inr ⟨hk.symm, rfl, rfl⟩
      · exact .inl h

theorem slot_of_evict (h : (c.evict now).slots.get? k = some s) : c.slots.get? k = some s := by
  have hfilter {c : IdleCache κ ν} {keep : κ → Slot ν → Bool}
      (h : (c.slots.filter keep).get? k = some s) : c.slots.get? k = some s := by
    rw [Table.get?_filter, Option.filter_eq_some_iff] at h
    exact h.1
  rw [evict] at h
  dsimp only at h
  split at h
  · exact hfilter h
  · exact hfilter (c := c) (hfilter (c := c.purge now) h)

theorem slot_of_insert (h : (c.insert now k v).slots.get? k' = some s) :
    c.slots.get? k' = some s ∨ k' = k ∧ s = ⟨v, now⟩ := by
  rw [insert, Table.get?_insert] at h
  split at h
  · next hk =>
    cases h
    exact .inr ⟨hk.symm, rfl⟩
  · split at h
    · exact .inl (slot_of_evict h)
    · exact .inl h

theorem slot_of_retain {keep : κ → ν → Bool} (h : (c.retain keep).slots.get? k = some s) :
    c.slots.get? k = some s := by
  rw [retain, Table.get?_filter, Option.filter_eq_some_iff] at h
  exact h.1

end Slots

end GuildPolicy.IdleCache
