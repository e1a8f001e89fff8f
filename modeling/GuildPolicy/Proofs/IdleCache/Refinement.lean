import GuildPolicy.Proofs.IdleCache.Ideal
import Mathlib.Data.List.Nodup

namespace GuildPolicy

variable {κ ν : Type}

namespace Table

variable {t t' : Table κ ν} {k k' : κ} {v : ν} {n : Nat}

theorem size_drop (t : Table κ ν) (n : Nat) : (t.drop n).size = t.size - n := List.length_drop

theorem filter_eq_self {keep : κ → ν → Bool} (h : ∀ e ∈ t.entries, keep e.1 e.2 = true) :
    t.filter keep = t :=
  ext (List.filter_eq_self.2 h)

theorem filter_filter (t : Table κ ν) (p q : κ → ν → Bool) :
    (t.filter p).filter q = t.filter fun k v => q k v && p k v :=
  ext (List.filter_filter ..)

theorem size_filter_le (t : Table κ ν) (keep : κ → ν → Bool) : (t.filter keep).size ≤ t.size :=
  List.length_filter_le ..

variable [DecidableEq κ]

theorem filter_notMem_take (t : Table κ ν) (n : Nat) :
    t.filter (fun k _ => k ∉ t.keys.take n) = t.drop n := by
  have hnodup := t.nodup
  rw [← List.take_append_drop n t.entries, List.map_append, List.nodup_append] at hnodup
  obtain ⟨_, _, hdisjoint⟩ := hnodup
  have htake : t.keys.take n = (t.entries.take n).map Prod.fst := List.map_take.symm
  refine ext ?_
  rw [htake]
  calc t.entries.filter (fun e => e.1 ∉ (t.entries.take n).map Prod.fst)
    _ = (t.entries.take n ++ t.entries.drop n).filter
        (fun e => e.1 ∉ (t.entries.take n).map Prod.fst) := by rw [List.take_append_drop]
    _ = t.entries.drop n := by
      rw [List.filter_append, List.filter_eq_nil_iff.2, List.filter_eq_self.2, List.nil_append]
      · intro e he
        exact decide_eq_true fun hk => hdisjoint _ hk _ (List.mem_map_of_mem he) rfl
      · intro e he hk
        exact of_decide_eq_true hk (List.mem_map_of_mem he)

theorem perm_of_get?_eq (h : ∀ k, t.get? k = t'.get? k) : t.entries.Perm t'.entries := by
  rw [List.perm_ext_iff_of_nodup t.nodup_entries t'.nodup_entries]
  rintro ⟨k, v⟩
  rw [← get?_eq_some_iff, ← get?_eq_some_iff, h]

theorem entries_insert_erase (t : Table κ ν) (k : κ) (v : ν) :
    ((t.erase k).insert k v).entries = t.entries.filter (fun e => e.1 ≠ k) ++ [(k, v)] := by
  refine put_of_notMem ?_
  rw [← keys, keys_erase]
  simp only [List.mem_filter, ne_eq, decide_not, decide_true, Bool.not_true, Bool.false_eq_true,
    and_false, not_false_eq_true]

theorem size_insert_le (t : Table κ ν) (k : κ) (v : ν) : (t.insert k v).size ≤ t.size + 1 := by
  rw [← length_keys, ← length_keys, keys_insert]
  split
  · exact Nat.le_succ _
  · exact Nat.le_of_eq List.length_append

theorem size_insert_of_mem (h : k ∈ t.keys) : (t.insert k v).size = t.size := by
  rw [← length_keys, ← length_keys, keys_insert, if_pos h]

end Table

theorem Slot.isFresh_of_le {s : Slot ν} {clock now lifetime : Nat} (hle : clock ≤ now)
    (h : s.isFresh now lifetime = true) : s.isFresh clock lifetime = true := by
  rw [isFresh, decide_eq_true_eq] at h ⊢
  omega

namespace IdleCache

variable {c : IdleCache κ ν} {i : Ideal κ ν} {k : κ} {v : ν} {s : Slot ν} {now : Nat}

namespace Ideal

theorem capacity_wait (n : Nat) : (i.wait n).capacity = i.capacity := by
  induction n with
  | zero => rfl
  | succ n ih => exact ih

theorem lifetime_wait (n : Nat) : (i.wait n).lifetime = i.lifetime := by
  induction n with
  | zero => rfl
  | succ n ih => exact ih

theorem clock_wait (n : Nat) : (i.wait n).clock = i.clock + n := by
  induction n with
  | zero => rfl
  | succ n ih => exact congrArg (· + 1) ih

/-- To drop each entry in its time is to drop at the end what has been idle for a lifetime then. -/
theorem live_wait (hfresh : ∀ e ∈ i.live.entries, e.2.isFresh i.clock i.lifetime = true)
    (n : Nat) :
    (i.wait n).live = i.live.filter fun _ s => s.isFresh (i.clock + n) i.lifetime := by
  induction n with
  | zero => exact (Table.filter_eq_self hfresh).symm
  | succ n ih =>
    rw [wait, pass, expire]
    dsimp only
    rw [ih, clock_wait, lifetime_wait, Table.filter_filter]
    refine congrArg i.live.filter (funext fun _ => funext fun s => ?_)
    exact Bool.and_eq_left_iff_imp.2 (Slot.isFresh_of_le (Nat.le_succ _))

variable [DecidableEq κ]

theorem capacity_insert : (i.insert k v).capacity = i.capacity := by
  rw [insert]
  split
  · rfl
  · rfl

theorem capacity_apply (op : Operation κ ν) : (i.apply op).2.capacity = i.capacity := by
  cases op with
  | insert k v => exact capacity_insert
  | get k =>
    rw [apply]
    split
    · rfl
    · rfl
  | getOrInsert k fresh =>
    rw [apply]
    split
    · rfl
    · exact capacity_insert
  | remove k => rfl
  | retain keep => rfl
  | clear => rfl
  | purge => rfl
  | size => rfl

theorem capacity_run (ops : List (Nat × Operation κ ν)) :
    (i.run ops).2.capacity = i.capacity := by
  induction ops generalizing i with
  | nil => rfl
  | cons op ops ih =>
    obtain ⟨now, op⟩ := op
    exact ih.trans ((capacity_apply op).trans (capacity_wait _))

end Ideal

theorem isExpired_eq : c.isExpired now s = !s.isFresh now c.lifetime := by
  rw [isExpired, Slot.isFresh, ← decide_not]
  exact decide_eq_decide.2 Nat.not_lt.symm

variable [DecidableEq κ]

/-- What holds of an idle cache and the ideal one beside it before an operation that comes at `next`
or later: they hold the same, but for what is expired. -/
structure Simulates (c : IdleCache κ ν) (i : Ideal κ ν) (next : Nat) : Prop where
  capacity : c.capacity = max i.capacity 1
  lifetime : c.lifetime = i.lifetime
  clock : i.clock ≤ next
  live : ∀ k, i.live.get? k = (c.slots.get? k).filter fun s => s.isFresh i.clock i.lifetime
  ordered : i.live.entries.Pairwise fun a b => a.2.lastUse < b.2.lastUse
  past : ∀ e ∈ i.live.entries, e.2.lastUse < next
  room : c.size ≤ c.capacity

variable {next : Nat}

theorem simulates_make (capacity lifetime : Nat) :
    Simulates (make capacity lifetime : IdleCache κ ν) (.make capacity lifetime) 0 where
  capacity := rfl
  lifetime := rfl
  clock := Nat.le_refl 0
  live _ := rfl
  ordered := .nil
  past := nofun
  room := Nat.zero_le _

namespace Simulates

theorem isFresh (h : Simulates c i next) :
    ∀ e ∈ i.live.entries, e.2.isFresh i.clock i.lifetime = true := by
  intro e he
  have hget := Table.get?_eq_some_iff.2 he
  rw [h.live, Option.filter_eq_some_iff] at hget
  exact hget.2

theorem wait (h : Simulates c i next) (hnow : next ≤ now) :
    Simulates c (i.wait (now - i.clock)) now := by
  have hle : i.clock ≤ now := Nat.le_trans h.clock hnow
  have hclock : (i.wait (now - i.clock)).clock = now := by
    rw [Ideal.clock_wait, Nat.add_sub_cancel' hle]
  have hlive := Ideal.live_wait h.isFresh (now - i.clock)
  rw [Nat.add_sub_cancel' hle] at hlive
  refine ⟨?_, ?_, ?_, ?_, ?_, ?_, h.room⟩
  · rw [Ideal.capacity_wait]
    exact h.capacity
  · rw [Ideal.lifetime_wait]
    exact h.lifetime
  · exact Nat.le_of_eq hclock
  · intro k
    rw [hlive, Table.get?_filter, h.live, Option.filter_filter, Ideal.lifetime_wait, hclock]
    refine congrArg (Option.filter · _) (funext fun s => ?_)
    exact Bool.and_eq_right_iff_imp.2 (Slot.isFresh_of_le hle)
  · rw [hlive]
    exact h.ordered.filter _
  · rw [hlive]
    intro e he
    exact Nat.lt_of_lt_of_le (h.past e (List.mem_of_mem_filter he)) hnow

theorem later (h : Simulates c i next) (hnext : next ≤ now) : Simulates c i now :=
  { h with
    clock := Nat.le_trans h.clock hnext
    past := fun e he => Nat.lt_of_lt_of_le (h.past e he) hnext }

theorem expire_eq (h : Simulates c i next) : i.expire = i := by
  rw [Ideal.expire, Table.filter_eq_self h.isFresh]

theorem filter (h : Simulates c i next) (keep : κ → Slot ν → Bool) :
    Simulates { c with slots := c.slots.filter keep } { i with live := i.live.filter keep }
      next where
  capacity := h.capacity
  lifetime := h.lifetime
  clock := h.clock
  live k := by
    rw [Table.get?_filter, Table.get?_filter, h.live, Option.filter_filter, Option.filter_filter]
    exact congrArg (Option.filter · _) (funext fun s => Bool.and_comm ..)
  ordered := h.ordered.filter _
  past e he := h.past e (List.mem_of_mem_filter he)
  room := Nat.le_trans (Table.size_filter_le ..) h.room

theorem use (h : Simulates c i i.clock)
    (hroom : (c.slots.insert k ⟨v, i.clock⟩).size ≤ c.capacity) :
    Simulates { c with slots := c.slots.insert k ⟨v, i.clock⟩ } (i.use k v).expire
      (i.clock + 1) where
  capacity := h.capacity
  lifetime := h.lifetime
  clock := Nat.le_succ _
  live k' := by
    rw [Ideal.use, Ideal.expire]
    dsimp only
    rw [Table.get?_filter, Table.get?_insert, Table.get?_insert, Table.get?_erase, h.live]
    split
    · rfl
    · rw [Option.filter_filter]
      exact congrArg (Option.filter · _) (funext fun s => Bool.and_self _)
  ordered := by
    refine List.Pairwise.filter _ ?_
    rw [Ideal.use, Table.entries_insert_erase, List.pairwise_append]
    refine ⟨h.ordered.filter _, List.pairwise_singleton .., fun a ha b hb => ?_⟩
    rw [List.mem_singleton.1 hb]
    exact h.past a (List.mem_of_mem_filter ha)
  past e he := by
    rcases Table.mem_entries_insert (List.mem_of_mem_filter he) with rfl | he
    · exact Nat.lt_succ_self _
    · exact Nat.lt_succ_of_lt (h.past e (List.mem_of_mem_filter he))
  room := hroom

/-- What a purge leaves is what the ideal cache holds. -/
theorem purge (h : Simulates c i next) : Simulates (c.purge i.clock) i next ∧
    (c.purge i.clock).slots.entries.Perm i.live.entries := by
  have hpurge : c.purge i.clock =
      { c with slots := c.slots.filter fun _ s => s.isFresh i.clock i.lifetime } := by
    simp only [IdleCache.purge, isExpired_eq, Bool.not_not, h.lifetime]
  have hsim := h.filter fun _ s => s.isFresh i.clock i.lifetime
  rw [← hpurge, Table.filter_eq_self (t := i.live) h.isFresh] at hsim
  refine ⟨hsim, Table.perm_of_get?_eq fun k => ?_⟩
  rw [hpurge, Table.get?_filter, h.live]

theorem size_le (h : Simulates c i next) : i.live.size ≤ c.size := by
  have hlength : (c.purge i.clock).size = i.live.size := h.purge.2.length_eq
  rw [← hlength]
  exact Table.size_filter_le ..

/-- A key that only the real cache holds makes it the larger one. -/
theorem size_lt (h : Simulates c i next) (hk : k ∈ c.slots.keys) (hlive : k ∉ i.live.keys) :
    i.live.size < c.size := by
  have hlength : (c.purge i.clock).size = i.live.size := h.purge.2.length_eq
  rw [← hlength]
  obtain ⟨⟨k, s⟩, hs, rfl⟩ := List.mem_map.1 hk
  refine List.length_filter_lt_length_iff_exists.2 ⟨(k, s), hs, fun hfresh => hlive ?_⟩
  dsimp only at hfresh
  rw [isExpired_eq, Bool.not_not, h.lifetime] at hfresh
  refine Table.contains_iff_mem_keys.1 ?_
  rw [Table.contains, h.live, Table.get?_eq_some_iff.2 hs, Option.filter, if_pos hfresh]
  rfl

/-- The ideal cache has its entries in the order in which the other finds them. -/
theorem byLastUse_eq (h : Simulates c i next) (hperm : c.slots.entries.Perm i.live.entries) :
    c.byLastUse = i.live.keys := by
  have hsorted : (c.slots.entries.mergeSort fun a b => a.2.lastUse ≤ b.2.lastUse).Pairwise
      fun a b => a.2.lastUse ≤ b.2.lastUse := by
    refine (List.pairwise_mergeSort ?_ ?_ _).imp of_decide_eq_true
    · intro a b c hab hbc
      rw [decide_eq_true_eq] at hab hbc ⊢
      exact Nat.le_trans hab hbc
    · intro a b
      rw [Bool.or_eq_true, decide_eq_true_eq, decide_eq_true_eq]
      exact Nat.le_total ..
  have hdistinct : (i.live.entries.map fun e => e.2.lastUse).Nodup :=
    List.pairwise_map.2 (h.ordered.imp Nat.ne_of_lt)
  have hperm :=
    (List.mergeSort_perm c.slots.entries fun a b => a.2.lastUse ≤ b.2.lastUse).trans hperm
  refine congrArg (List.map Prod.fst) (hperm.eq_of_pairwise ?_ hsorted (h.ordered.imp Nat.le_of_lt))
  intro a b ha hb hab hba
  exact List.inj_on_of_nodup_map hdistinct (hperm.mem_iff.1 ha) hb (Nat.le_antisymm hab hba)

/-- The real cache makes room exactly when the ideal one does, and drops the same entries. -/
theorem evict (h : Simulates c i i.clock) :
    Simulates (c.evict i.clock)
      (if max i.capacity 1 ≤ i.live.size then i.dropOldest (max 1 (i.capacity / 10)) else i)
      i.clock ∧ (c.evict i.clock).size < (c.evict i.clock).capacity := by
  obtain ⟨hpurge, hperm⟩ := h.purge
  rw [IdleCache.evict]
  dsimp only
  generalize c.purge i.clock = p at hpurge hperm ⊢
  have hsize : p.size = i.live.size := hperm.length_eq
  rw [← hsize, ← hpurge.capacity]
  by_cases hroom : p.size < p.capacity
  · rw [if_pos hroom, if_neg (Nat.not_le.2 hroom)]
    exact ⟨hpurge, hroom⟩
  · have hfull : p.size = p.capacity := Nat.le_antisymm hpurge.room (Nat.not_lt.1 hroom)
    have hbatch : p.batch = max 1 (i.capacity / 10) := by
      rw [batch, hfull, hpurge.capacity]
      omega
    rw [if_neg hroom, if_pos (Nat.not_lt.1 hroom), hbatch, hpurge.byLastUse_eq hperm]
    have hsim := hpurge.filter fun k _ => k ∉ i.live.keys.take (max 1 (i.capacity / 10))
    have hlen := (hperm.filter fun e => e.1 ∉ i.live.keys.take (max 1 (i.capacity / 10))).length_eq
    have hdrop := congrArg Table.size (i.live.filter_notMem_take (max 1 (i.capacity / 10)))
    rw [Table.filter_notMem_take] at hsim
    refine ⟨hsim, ?_⟩
    have hcount := hlen.trans (hdrop.trans (Table.size_drop ..))
    refine Nat.lt_of_le_of_lt (Nat.le_of_eq hcount) (?_ : _ < p.capacity)
    have := hpurge.capacity
    omega

theorem insert (h : Simulates c i i.clock) :
    Simulates (c.insert i.clock k v) (i.insert k v).expire (i.clock + 1) := by
  have hroom {c : IdleCache κ ν} {i' : Ideal κ ν} (hc : Simulates c i' i.clock)
      (hclock : i'.clock = i.clock) (hlt : k ∈ c.slots.keys ∨ c.size < c.capacity) :
      Simulates { c with slots := c.slots.insert k ⟨v, i.clock⟩ } (i'.use k v).expire
        (i.clock + 1) := by
    rw [← hclock] at hc ⊢
    refine hc.use ?_
    rcases hlt with hk | hlt
    · rw [Table.size_insert_of_mem hk]
      exact hc.room
    · exact Nat.le_trans (Table.size_insert_le ..) hlt
  rw [IdleCache.insert, Ideal.insert]
  by_cases hk : k ∈ c.slots.keys
  · have hreal : ¬(!c.slots.contains k && decide (c.capacity ≤ c.size)) = true := by
      rw [Table.contains_iff_mem_keys.2 hk]
      exact nofun
    have hideal : ¬(k ∉ i.live.keys ∧ max i.capacity 1 ≤ i.live.size) := by
      rintro ⟨hlive, hfull⟩
      rw [← h.capacity] at hfull
      exact absurd (Nat.lt_of_le_of_lt hfull (h.size_lt hk hlive)) (Nat.not_lt.2 h.room)
    rw [if_neg hreal, if_neg hideal]
    exact hroom h rfl (.inl hk)
  · have hlive : k ∉ i.live.keys := by
      rw [← Table.get?_eq_none_iff] at hk ⊢
      rw [h.live, hk]
      rfl
    have hcontains : c.slots.contains k = false :=
      Bool.eq_false_iff.2 (mt Table.contains_iff_mem_keys.1 hk)
    rw [hcontains, Bool.not_false, Bool.true_and]
    by_cases hfull : c.capacity ≤ c.size
    · obtain ⟨hevict, hlt⟩ := h.evict
      rw [if_pos (decide_eq_true hfull)]
      have hused := hroom hevict (by split <;> rfl) (.inr hlt)
      rw [apply_ite (Ideal.use · k v)] at hused
      simp only [hlive, not_false_eq_true, true_and]
      exact hused
    · have hideal : ¬(k ∉ i.live.keys ∧ max i.capacity 1 ≤ i.live.size) := by
        rintro ⟨_, hle⟩
        rw [← h.capacity] at hle
        exact hfull (Nat.le_trans hle h.size_le)
      rw [if_neg (by rwa [decide_eq_true_eq]), if_neg hideal]
      exact hroom h rfl (.inr (Nat.not_le.1 hfull))

theorem get_none (h : Simulates c i next) (hk : i.live.get? k = none) :
    (c.get i.clock k).1 = none ∧ Simulates (c.get i.clock k).2 i next := by
  rw [h.live, Option.filter_eq_none_iff] at hk
  rw [IdleCache.get]
  cases hs : c.slots.get? k with
  | none => exact ⟨rfl, h⟩
  | some s =>
    have hexpired : c.isExpired i.clock s = true := by
      rw [isExpired_eq, h.lifetime, Bool.not_eq_true', ← Bool.not_eq_true]
      exact hk s hs
    dsimp only
    rw [if_pos hexpired]
    have herase := h.filter fun k' _ => k' ≠ k
    rw [Table.filter_eq_self (t := i.live)] at herase
    · exact ⟨rfl, herase⟩
    · rintro ⟨k', s'⟩ he
      refine decide_eq_true ?_
      rintro rfl
      rw [← Table.get?_eq_some_iff, h.live, Option.filter_eq_some_iff] at he
      exact hk s' he.1 he.2

theorem get_some (h : Simulates c i i.clock) (hk : i.live.get? k = some s) :
    (c.get i.clock k).1 = some s.value ∧
      Simulates (c.get i.clock k).2 (i.use k s.value).expire (i.clock + 1) := by
  rw [h.live, Option.filter_eq_some_iff] at hk
  obtain ⟨hs, hfresh⟩ := hk
  have hexpired : ¬c.isExpired i.clock s = true := by
    rw [isExpired_eq, h.lifetime, hfresh]
    exact nofun
  rw [IdleCache.get, hs]
  dsimp only
  rw [if_neg hexpired]
  refine ⟨rfl, h.use ?_⟩
  rw [Table.size_insert_of_mem]
  · exact h.room
  · exact Table.contains_iff_mem_keys.1 (Option.isSome_of_eq_some hs)

/-- One operation: the caches give one reply, and go on holding the same. -/
theorem apply (h : Simulates c i i.clock) (op : Operation κ ν) :
    (IdleCache.step c i.clock op).1 = (i.apply op).1 ∧
    Simulates (IdleCache.step c i.clock op).2 (i.apply op).2.expire (i.clock + 1) := by
  have hexpire {c : IdleCache κ ν} {i : Ideal κ ν} (h : Simulates c i i.clock) :
      Simulates c i.expire (i.clock + 1) := by
    rw [h.expire_eq]
    exact h.later (Nat.le_succ _)
  cases op with
  | insert k v => exact ⟨rfl, h.insert⟩
  | get k =>
    rw [Ideal.apply]
    cases hk : i.live.get? k with
    | none =>
      obtain ⟨hnone, hget⟩ := h.get_none hk
      exact ⟨congrArg Reply.read hnone, hexpire hget⟩
    | some s =>
      obtain ⟨hsome, hget⟩ := h.get_some hk
      exact ⟨congrArg Reply.read hsome, hget⟩
  | getOrInsert k fresh =>
    rw [Ideal.apply, IdleCache.step, getOrInsert]
    cases hk : i.live.get? k with
    | none =>
      obtain ⟨hnone, hget⟩ := h.get_none hk
      generalize c.get i.clock k = r at hnone hget ⊢
      obtain ⟨_, c'⟩ := r
      obtain rfl := hnone
      exact ⟨rfl, hget.insert⟩
    | some s =>
      obtain ⟨hsome, hget⟩ := h.get_some hk
      generalize c.get i.clock k = r at hsome hget ⊢
      obtain ⟨_, c'⟩ := r
      obtain rfl := hsome
      exact ⟨rfl, hget⟩
  | remove k => exact ⟨rfl, hexpire (h.filter _)⟩
  | retain keep => exact ⟨rfl, hexpire (h.filter _)⟩
  | clear =>
    refine ⟨rfl, hexpire ?_⟩
    exact ⟨h.capacity, h.lifetime, h.clock, fun _ => rfl, .nil, nofun, Nat.zero_le _⟩
  | purge => exact ⟨rfl, hexpire h.purge.1⟩
  | size => exact ⟨rfl, hexpire h⟩

theorem step (h : Simulates c i next) (hnow : next ≤ now) (op : Operation κ ν) :
    (IdleCache.step c now op).1 = (i.step now op).1 ∧
    Simulates (IdleCache.step c now op).2 (i.step now op).2 (now + 1) := by
  have hclock : (i.wait (now - i.clock)).clock = now := by
    rw [Ideal.clock_wait, Nat.add_sub_cancel' (Nat.le_trans h.clock hnow)]
  have hwait := h.wait hnow
  rw [Ideal.step]
  generalize i.wait (now - i.clock) = i at hclock hwait ⊢
  subst hclock
  exact hwait.apply op

theorem run (h : Simulates c i next) {ops : List (Nat × Operation κ ν)}
    (hops : (ops.map Prod.fst).Pairwise (· < ·)) (hnext : ∀ now ∈ ops.map Prod.fst, next ≤ now) :
    (c.run ops).1 = (i.run ops).1 ∧ ∃ next, Simulates (c.run ops).2 (i.run ops).2 next := by
  induction ops generalizing c i next with
  | nil => exact ⟨rfl, next, h⟩
  | cons op ops ih =>
    obtain ⟨now, op⟩ := op
    obtain ⟨hlater, hops⟩ := List.pairwise_cons.1 hops
    obtain ⟨hreply, hstep⟩ := h.step (hnext now (List.mem_cons_self ..)) op
    obtain ⟨hreplies, hrun⟩ := ih hstep hops hlater
    exact ⟨congrArg₂ List.cons hreply hreplies, hrun⟩

end Simulates

/-- Over any operations at increasing times the cache answers as the ideal one. Its entries, expired
ones included, are never more than its capacity, and whenever it has to make room there are as many
of them as it drops. -/
theorem run_eq_ideal (capacity lifetime : Nat) (ops : List (Nat × Operation κ ν))
    (hops : (ops.map Prod.fst).Pairwise (· < ·)) :
    ((make capacity lifetime : IdleCache κ ν).run ops).1 =
      ((Ideal.make capacity lifetime : Ideal κ ν).run ops).1 ∧
    ((make capacity lifetime : IdleCache κ ν).run ops).2.size ≤ max capacity 1 ∧
    ∀ now, let c := ((make capacity lifetime : IdleCache κ ν).run ops).2.purge now
      c.capacity ≤ c.size → 1 ≤ c.size ∧ c.batch = max (c.capacity / 10) 1 ∧ c.batch ≤ c.size := by
  have hmake : Simulates (make capacity lifetime : IdleCache κ ν) (.make capacity lifetime) 0 :=
    simulates_make capacity lifetime
  obtain ⟨hreplies, next, hrun⟩ := hmake.run hops fun _ _ => Nat.zero_le _
  have hcapacity := hrun.capacity
  rw [Ideal.capacity_run] at hcapacity
  refine ⟨hreplies, Nat.le_trans hrun.room (Nat.le_of_eq hcapacity), fun now hfull => ?_⟩
  have hcapacity : (((make capacity lifetime : IdleCache κ ν).run ops).2.purge now).capacity =
      max capacity 1 := hcapacity
  rw [batch, hcapacity]
  rw [hcapacity] at hfull
  omega

theorem run_eq_ideal_two : ∃ ops : List (Nat × Operation Nat Nat),
    (ops.map Prod.fst).Pairwise (· < ·) ∧
    ((make 2 10 : IdleCache Nat Nat).run ops).1 = [.nothing, .nothing, .read (some 1), .nothing,
      .read none, .taken 3 false, .taken 5 true] ∧
    ((make 2 10 : IdleCache Nat Nat).run ops).2.size ≤ 2 := by
  let ops : List (Nat × Operation Nat Nat) := [(1, .insert 1 1), (2, .insert 2 2), (3, .get 1),
    (4, .insert 3 3), (11, .get 2), (12, .getOrInsert 3 4), (13, .getOrInsert 1 5)]
  have hops : (ops.map Prod.fst).Pairwise (· < ·) := by decide
  obtain ⟨hreplies, hsize, _⟩ := run_eq_ideal 2 10 ops hops
  exact ⟨ops, hops, hreplies.trans (by decide), hsize⟩

end IdleCache

end GuildPolicy
