namespace GuildPolicy

/-- Values under distinct keys, in the order in which the keys first came. A later value for a key
takes the place of the earlier one; an erased key closes its gap, and comes last when it returns. -/
structure Table (κ ν : Type) where
  entries : List (κ × ν)
  nodup : (entries.map Prod.fst).Nodup

namespace Table

variable {κ ν : Type}

@[ext] theorem ext {a b : Table κ ν} (h : a.entries = b.entries) : a = b := by
  cases a
  cases b
  cases h
  rfl

instance [DecidableEq κ] [DecidableEq ν] : DecidableEq (Table κ ν) := fun a b =>
  decidable_of_iff (a.entries = b.entries) ⟨ext, fun h => h ▸ rfl⟩

def empty : Table κ ν := ⟨[], .nil⟩

instance : Inhabited (Table κ ν) := ⟨empty⟩

def keys (t : Table κ ν) : List κ := t.entries.map Prod.fst

def values (t : Table κ ν) : List ν := t.entries.map Prod.snd

def size (t : Table κ ν) : Nat := t.entries.length

@[simp] theorem entries_empty : (empty : Table κ ν).entries = [] := rfl

theorem nodup_keys (t : Table κ ν) : t.keys.Nodup := t.nodup

theorem nodup_entries (t : Table κ ν) : t.entries.Nodup :=
  List.Pairwise.of_map Prod.fst (fun _ _ hne heq => hne (congrArg Prod.fst heq)) t.nodup_keys

theorem length_keys (t : Table κ ν) : t.keys.length = t.size := List.length_map _

/-- The entries that satisfy a test, in the same order. -/
def filter (t : Table κ ν) (keep : κ → ν → Bool) : Table κ ν where
  entries := t.entries.filter fun (k, v) => keep k v
  nodup := t.nodup.sublist (List.filter_sublist.map _)

variable [DecidableEq κ]

/-- The value under the first key `k` of a list. -/
def find? (k : κ) : List (κ × ν) → Option ν
  | [] => none
  | (k', v) :: rest => if k' = k then some v else find? k rest

/-- A list with `v` under its first key `k`, at the end if there is none. -/
def put (k : κ) (v : ν) : List (κ × ν) → List (κ × ν)
  | [] => [(k, v)]
  | (k', v') :: rest => if k' = k then (k, v) :: rest else (k', v') :: put k v rest

theorem map_fst_put (k : κ) (v : ν) (l : List (κ × ν)) :
    (put k v l).map Prod.fst = if k ∈ l.map Prod.fst then l.map Prod.fst
      else l.map Prod.fst ++ [k] := by
  induction l with
  | nil => rfl
  | cons e l ih =>
    by_cases h : e.1 = k
    · simp [put, h]
    · have h' : k ≠ e.1 := fun hk => h hk.symm
      simp only [put, h, if_false, List.map_cons, ih, List.mem_cons, h', false_or]
      split <;> simp

theorem nodup_put {k : κ} {v : ν} {l : List (κ × ν)} (h : (l.map Prod.fst).Nodup) :
    ((put k v l).map Prod.fst).Nodup := by
  rw [map_fst_put]
  split
  · exact h
  · next hk =>
    rw [List.nodup_append]
    exact ⟨h, by simp, fun a ha b hb => by
      rw [List.mem_singleton] at hb
      exact fun hab => hk (hb ▸ hab ▸ ha)⟩

def get? (t : Table κ ν) (k : κ) : Option ν := find? k t.entries

def contains (t : Table κ ν) (k : κ) : Bool := (t.get? k).isSome

/-- Puts a value under a key, in the place of an earlier value or at the end. -/
def insert (t : Table κ ν) (k : κ) (v : ν) : Table κ ν where
  entries := put k v t.entries
  nodup := nodup_put t.nodup

/-- Replaces the value under a key, or the default when there is none, by its image. -/
def update (t : Table κ ν) (k : κ) (default : ν) (f : ν → ν) : Table κ ν :=
  t.insert k (f ((t.get? k).getD default))

def erase (t : Table κ ν) (k : κ) : Table κ ν := t.filter fun k' _ => k' ≠ k

/-- The table that a list of insertions builds. -/
def ofList (l : List (κ × ν)) : Table κ ν := l.foldl (fun t (k, v) => t.insert k v) empty

theorem find?_put (k k' : κ) (v : ν) (l : List (κ × ν)) :
    find? k' (put k v l) = if k = k' then some v else find? k' l := by
  induction l with
  | nil => rfl
  | cons e l ih =>
    by_cases h : e.1 = k
    · by_cases hk : k = k' <;> simp [put, find?, h, hk]
    · by_cases hk : k = k'
      · subst hk
        simp [put, find?, h, ih]
      · simp only [put, h, if_false, find?, ih, hk]

theorem find?_eq_none_iff (k : κ) (l : List (κ × ν)) :
    find? k l = none ↔ k ∉ l.map Prod.fst := by
  induction l with
  | nil => simp [find?]
  | cons e l ih =>
    by_cases h : e.1 = k
    · simp [find?, h]
    · have h' : k ≠ e.1 := fun hk => h hk.symm
      simp [find?, h, h', ih]

theorem find?_eq_some_iff {k : κ} {v : ν} {l : List (κ × ν)} (h : (l.map Prod.fst).Nodup) :
    find? k l = some v ↔ (k, v) ∈ l := by
  induction l with
  | nil => simp [find?]
  | cons e l ih =>
    obtain ⟨k', v'⟩ := e
    rw [List.map_cons, List.nodup_cons] at h
    by_cases hk : k' = k
    · subst hk
      have : (k', v) ∉ l := fun hm => h.1 (List.mem_map.2 ⟨_, hm, rfl⟩)
      simp [find?, this, eq_comm]
    · have hk' : k ≠ k' := fun he => hk he.symm
      simp [find?, hk, hk', ih h.2]

theorem find?_filter_ne (k k' : κ) (l : List (κ × ν)) :
    find? k' (l.filter fun e => e.1 ≠ k) = if k = k' then none else find? k' l := by
  induction l with
  | nil => simp [find?]
  | cons e l ih =>
    by_cases h : e.1 = k
    · by_cases hk : k = k'
      · simpa [find?, h, hk] using ih
      · simpa [find?, h, hk] using ih
    · by_cases hk : k = k'
      · subst hk
        simpa [find?, h] using ih
      · rw [if_neg hk] at ih ⊢
        rw [List.filter_cons_of_pos (by simpa using h)]
        simp only [find?, ih]

theorem get?_insert (t : Table κ ν) (k k' : κ) (v : ν) :
    (t.insert k v).get? k' = if k = k' then some v else t.get? k' :=
  find?_put k k' v t.entries

@[simp] theorem get?_insert_self (t : Table κ ν) (k : κ) (v : ν) :
    (t.insert k v).get? k = some v := by
  simp [get?_insert]

theorem get?_insert_of_ne {t : Table κ ν} {k k' : κ} {v : ν} (h : k ≠ k') :
    (t.insert k v).get? k' = t.get? k' := by
  simp [get?_insert, h]

theorem get?_erase (t : Table κ ν) (k k' : κ) :
    (t.erase k).get? k' = if k = k' then none else t.get? k' :=
  find?_filter_ne k k' t.entries

theorem get?_eq_some_iff {t : Table κ ν} {k : κ} {v : ν} :
    t.get? k = some v ↔ (k, v) ∈ t.entries :=
  find?_eq_some_iff t.nodup

theorem get?_eq_none_iff {t : Table κ ν} {k : κ} : t.get? k = none ↔ k ∉ t.keys :=
  find?_eq_none_iff k t.entries

theorem get?_filter (t : Table κ ν) (keep : κ → ν → Bool) (k : κ) :
    (t.filter keep).get? k = (t.get? k).filter (keep k) := by
  apply Option.ext
  intro v
  rw [Option.filter_eq_some_iff, get?_eq_some_iff, get?_eq_some_iff, filter, List.mem_filter]

theorem contains_iff_mem_keys {t : Table κ ν} {k : κ} : t.contains k = true ↔ k ∈ t.keys := by
  rw [contains, Option.isSome_iff_ne_none, ne_eq, get?_eq_none_iff, Classical.not_not]

theorem keys_insert (t : Table κ ν) (k : κ) (v : ν) :
    (t.insert k v).keys = if k ∈ t.keys then t.keys else t.keys ++ [k] :=
  map_fst_put k v t.entries

theorem keys_erase (t : Table κ ν) (k : κ) : (t.erase k).keys = t.keys.filter (· ≠ k) := by
  simp only [keys, erase, filter, List.filter_map]
  rfl

theorem mem_keys_insert {t : Table κ ν} {k k' : κ} {v : ν} :
    k' ∈ (t.insert k v).keys ↔ k' = k ∨ k' ∈ t.keys := by
  rw [keys_insert]
  split
  · next hk =>
    constructor
    · exact .inr
    · rintro (rfl | h)
      · exact hk
      · exact h
  · rw [List.mem_append, List.mem_singleton, or_comm]

theorem mem_entries_insert {t : Table κ ν} {k : κ} {v : ν} {e : κ × ν}
    (h : e ∈ (t.insert k v).entries) : e = (k, v) ∨ e ∈ t.entries := by
  have hget := get?_eq_some_iff.2 h
  rw [get?_insert] at hget
  split at hget
  · next hk =>
    cases hget
    exact .inl (Prod.ext hk.symm rfl)
  · exact .inr (get?_eq_some_iff.1 hget)

theorem insert_of_get? {t : Table κ ν} {k : κ} {v : ν} (h : t.get? k = some v) :
    t.insert k v = t := by
  have hput (l : List (κ × ν)) (hl : find? k l = some v) : put k v l = l := by
    induction l with
    | nil => cases hl
    | cons e l ih =>
      rw [find?] at hl
      split at hl
      · next hk =>
        cases hl
        rw [put, if_pos hk, ← hk]
      · next hk => rw [put, if_neg hk, ih hl]
  exact ext (hput t.entries h)

theorem put_of_notMem {k : κ} {v : ν} {l : List (κ × ν)} (h : k ∉ l.map Prod.fst) :
    put k v l = l ++ [(k, v)] := by
  induction l with
  | nil => rfl
  | cons e l ih =>
    rw [List.map_cons, List.mem_cons, not_or] at h
    rw [put, if_neg (Ne.symm h.1), ih h.2]
    rfl

theorem entries_foldl_insert {l : List (κ × ν)} (t : Table κ ν)
    (h : (t.entries ++ l).map Prod.fst |>.Nodup) :
    (l.foldl (fun t (k, v) => t.insert k v) t).entries = t.entries ++ l := by
  induction l generalizing t with
  | nil => exact (List.append_nil _).symm
  | cons e l ih =>
    have hk : e.1 ∉ t.entries.map Prod.fst := by
      rw [List.map_append, List.map_cons, List.nodup_append] at h
      exact fun hm => h.2.2 e.1 hm e.1 (List.mem_cons_self ..) rfl
    have he : (t.insert e.1 e.2).entries = t.entries ++ [e] := put_of_notMem hk
    have ht : (t.insert e.1 e.2).entries ++ l = t.entries ++ e :: l := by
      rw [he, List.append_assoc, List.singleton_append]
    rw [List.foldl_cons, ih _ (by rw [ht]; exact h), ht]

theorem ofList_entries (t : Table κ ν) : ofList t.entries = t :=
  ext (entries_foldl_insert empty t.nodup)

end Table

end GuildPolicy
