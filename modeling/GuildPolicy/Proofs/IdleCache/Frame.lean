import GuildPolicy.Proofs.IdleCache
import GuildPolicy.Proofs.IdleCache.Refinement

namespace GuildPolicy

variable {κ ν : Type} [DecidableEq κ]

namespace Table

variable {t : Table κ ν} {k : κ}

theorem erase_insert (t : Table κ ν) (k : κ) (v : ν) : (t.insert k v).erase k = t.erase k := by
  refine ext ?_
  change (put k v t.entries).filter _ = t.entries.filter _
  induction t.entries with
  | nil => exact List.filter_cons_of_neg (by simp)
  | cons e l ih =>
    rw [put]
    by_cases he : e.1 = k
    · rw [if_pos he, List.filter_cons_of_neg (by simp), List.filter_cons_of_neg (by simpa using he)]
    · rw [if_neg he, List.filter_cons_of_pos (by simpa using he),
        List.filter_cons_of_pos (by simpa using he), ih]

theorem erase_erase (t : Table κ ν) (k : κ) : (t.erase k).erase k = t.erase k := by
  rw [erase, erase, filter_filter]
  simp only [Bool.and_self]

theorem erase_of_notMem (h : k ∉ t.keys) : t.erase k = t :=
  filter_eq_self fun _ he => decide_eq_true fun hk => h (hk ▸ List.mem_map_of_mem he)

theorem size_erase_le (t : Table κ ν) (k : κ) : (t.erase k).size ≤ t.size := t.size_filter_le _

theorem size_erase_filter_le (t : Table κ ν) (k : κ) (keep : κ → ν → Bool) :
    ((t.filter keep).erase k).size ≤ (t.erase k).size :=
  (List.filter_sublist.filter _).length_le

end Table

namespace IdleCache

variable {c c' c'' : IdleCache κ ν} {k k' : κ} {v : ν} {now : Nat}

/-- The entry under a key stays as it was or, if the cache was full, is dropped. -/
def Keeps (c c' : IdleCache κ ν) (k : κ) : Prop :=
  c'.slots.get? k = c.slots.get? k ∨ c'.slots.get? k = none ∧ c.capacity ≤ c.size

/-- A cache after operations on one key. The other entries grow no more, and one of them is dropped
only if they fill the cache. -/
structure Beside (k : κ) (c c' : IdleCache κ ν) : Prop where
  capacity : c'.capacity = c.capacity
  size : (c'.slots.erase k).size ≤ (c.slots.erase k).size
  slot : ∀ k', k' ≠ k → c'.slots.get? k' = c.slots.get? k' ∨
    c'.slots.get? k' = none ∧ c.capacity ≤ (c.slots.erase k).size

theorem Beside.refl (k : κ) (c : IdleCache κ ν) : Beside k c c :=
  ⟨rfl, Nat.le_refl _, fun _ _ => .inl rfl⟩

theorem Beside.trans (h : Beside k c c') (h' : Beside k c' c'') : Beside k c c'' := by
  refine ⟨h'.capacity.trans h.capacity, Nat.le_trans h'.size h.size, fun k' hk => ?_⟩
  rcases h'.slot k' hk with heq | ⟨hnone, hfull⟩
  · rw [heq]
    exact h.slot k' hk
  · rw [h.capacity] at hfull
    exact .inr ⟨hnone, Nat.le_trans hfull h.size⟩

theorem Beside.keeps (h : Beside k c c') (hk : k' ≠ k) : c.Keeps c' k' := by
  rcases h.slot k' hk with heq | ⟨hnone, hfull⟩
  · exact .inl heq
  · exact .inr ⟨hnone, Nat.le_trans hfull (c.slots.size_erase_le k)⟩

theorem beside_erase (k : κ) (c : IdleCache κ ν) :
    Beside k c { c with slots := c.slots.erase k } := by
  refine ⟨rfl, Nat.le_of_eq ?_, fun k' hk => .inl ?_⟩
  · exact congrArg Table.size (c.slots.erase_erase k)
  · exact (c.slots.get?_erase k k').trans (if_neg hk.symm)

theorem beside_put (k : κ) (c : IdleCache κ ν) (s : Slot ν) :
    Beside k c { c with slots := c.slots.insert k s } := by
  refine ⟨rfl, Nat.le_of_eq ?_, fun k' hk => .inl (Table.get?_insert_of_ne hk.symm)⟩
  exact congrArg Table.size (c.slots.erase_insert k s)

theorem beside_get : Beside k c (c.get now k).2 := by
  rw [get]
  split
  · exact .refl k c
  · split
    · exact beside_erase k c
    · exact beside_put k c _

theorem beside_remove : Beside k c (c.remove k).2 := beside_erase k c

/-- To drop entries of a full cache is no operation on a key that is not there. -/
theorem beside_filter (hk : k ∉ c.slots.keys) (hfull : c.capacity ≤ c.size)
    (keep : κ → Slot ν → Bool) : Beside k c { c with slots := c.slots.filter keep } := by
  refine ⟨rfl, c.slots.size_erase_filter_le k keep, fun k' _ => ?_⟩
  have hothers : c.capacity ≤ (c.slots.erase k).size := by
    rw [Table.erase_of_notMem hk]
    exact hfull
  rw [Table.get?_filter]
  cases hs : c.slots.get? k' with
  | none => exact .inl rfl
  | some s =>
    rw [Option.filter]
    split
    · exact .inl rfl
    · exact .inr ⟨rfl, hothers⟩

theorem beside_evict (hk : k ∉ c.slots.keys) (hfull : c.capacity ≤ c.size) :
    Beside k c (c.evict now) := by
  have hpurge : Beside k c (c.purge now) := beside_filter hk hfull _
  have hk' : k ∉ (c.purge now).slots.keys := fun hmem =>
    hk ((List.filter_sublist.map Prod.fst).subset hmem)
  rw [evict]
  dsimp only
  split
  · exact hpurge
  · next hroom => exact hpurge.trans (beside_filter hk' (Nat.le_of_not_lt hroom) _)

theorem beside_insert : Beside k c (c.insert now k v) := by
  rw [insert]
  split
  · next hroom =>
    rw [Bool.and_eq_true, Bool.not_eq_true', decide_eq_true_iff] at hroom
    have hk : k ∉ c.slots.keys := by
      rw [← Table.contains_iff_mem_keys, hroom.1]
      exact Bool.false_ne_true
    exact (beside_evict hk hroom.2).trans (beside_put k _ _)
  · exact beside_put k c _

theorem keeps_retain {keep : κ → ν → Bool} (h : ∀ v, keep k v = true) : c.Keeps (c.retain keep) k := by
  refine .inl ?_
  rw [retain, Table.get?_filter]
  cases c.slots.get? k with
  | none => rfl
  | some s => exact Option.filter_some_pos (h s.value)

/-- An entry is lost: it is dropped from a cache that was full, or it is kept and has expired. -/
def Loses (c c' : IdleCache κ ν) (now : Nat) (k : κ) : Prop :=
  ∃ s, c.slots.get? k = some s ∧ (c'.slots.get? k = none ∧ c.capacity ≤ c.size ∨
    c'.slots.get? k = some s ∧ c'.isExpired now s = true)

theorem get_of_expired {s : Slot ν} (hs : c.slots.get? k = some s)
    (he : c.isExpired now s = true) : (c.get now k).1 = none := by
  simp only [get, hs, if_pos he]

/-- A later read of an entry that was kept reads the same, or nothing. -/
theorem Keeps.get {now' : Nat} (h : c.Keeps c' k) (hlifetime : c'.lifetime = c.lifetime)
    (hle : now ≤ now') :
    (c'.get now' k).1 = (c.get now k).1 ∨ (c'.get now' k).1 = none ∧ c.Loses c' now' k := by
  cases hs : c.slots.get? k with
  | none =>
    have hnone : c'.slots.get? k = none := by
      rcases h with heq | ⟨hnone, -⟩
      · exact heq.trans hs
      · exact hnone
    simp only [IdleCache.get, hs, hnone, true_or]
  | some s =>
    rcases h with heq | ⟨hnone, hfull⟩
    · rw [hs] at heq
      by_cases he : c'.isExpired now' s = true
      · exact .inr ⟨get_of_expired heq he, s, hs, .inr ⟨heq, he⟩⟩
      · have hsoon : now' - s.lastUse < c'.lifetime := by
          rw [isExpired, decide_eq_true_eq] at he
          omega
        rw [get_of_slot hs (by omega), get_of_slot heq hsoon]
        exact .inl rfl
    · refine .inr ⟨?_, s, hs, .inl ⟨hnone, hfull⟩⟩
      simp only [IdleCache.get, hnone]

end IdleCache

end GuildPolicy
