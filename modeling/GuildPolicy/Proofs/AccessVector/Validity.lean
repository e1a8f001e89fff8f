import GuildPolicy.AccessVector.Validity
import GuildPolicy.Module.Validity
import GuildPolicy.Proofs.AccessVector.Merge

namespace GuildPolicy

open GuildPolicy.Syntax

namespace PolicyModule

variable {m : PolicyModule}

theorem declares_of_validate (h : m.validate = .ok ()) (kind : RuleKind) {p : TypePair}
    (hp : p ∈ (m.targeted kind).pairs.map Prod.fst) :
    m.declares p.subject = true ∧ m.declares p.target = true := by
  have hfault : m.targetsFault? kind = none := by
    have hnone : m.fault? = none := by
      rw [validate] at h
      split at h
      · cases h
      · next hf => exact hf
    rw [fault?] at hnone
    split at hnone
    · cases hnone
    · simp only [Option.orElse_eq_orElse, Option.orElse_eq_or, Option.or_eq_none_iff] at hnone
      cases kind with
      | allow => exact hnone.2.2.1
      | deny => exact hnone.2.2.2
  have hids := List.find?_eq_none.1 (Option.map_eq_none_iff.1 hfault)
  have hlt {id : TypeId} (hid : ∃ e ∈ (m.targeted kind).entries, id ∈ e.1 :: e.2.keys) :
      m.declares id = true := by
    have hn := hids id (List.mem_flatMap.2 hid)
    rw [decide_eq_true_eq] at hn
    exact decide_eq_true (Nat.lt_of_not_le hn)
  obtain ⟨⟨p', bits⟩, hmem, rfl⟩ := List.mem_map.1 hp
  obtain ⟨⟨subject, targets⟩, he, hmem⟩ := List.mem_flatMap.1 hmem
  obtain ⟨⟨target, bits'⟩, ht, heq⟩ := List.mem_map.1 hmem
  cases heq
  have htarget : target ∈ targets.keys := List.mem_map.2 ⟨_, ht, rfl⟩
  exact ⟨hlt ⟨_, he, List.mem_cons_self ..⟩, hlt ⟨_, he, List.mem_cons_of_mem _ htarget⟩⟩

end PolicyModule

namespace AccessVector

/-- The checks that a valid access vector passes. -/
structure Valid (v : AccessVector) : Prop where
  version : ¬currentVersion < v.version
  sizes : v.names.size = v.ids.size
  index : ∀ e ∈ v.names.entries, v.ids.get? e.2 = some e.1
  allow : ∀ x ∈ v.allow.keys, x ∈ v.names.keys
  deny : ∀ x ∈ v.deny.keys, x ∈ v.names.keys
  allowOn : ∀ p ∈ v.allowOn.keys, p.subject ∈ v.names.keys ∧ p.target ∈ v.names.keys
  denyOn : ∀ p ∈ v.denyOn.keys, p.subject ∈ v.names.keys ∧ p.target ∈ v.names.keys

section Checks

variable (v : AccessVector) (kind : RuleKind)

theorem sizesFault?_eq_none_iff : v.sizesFault? = none ↔ v.names.size = v.ids.size := by
  rw [sizesFault?]
  split
  · next h => exact ⟨fun _ => h, fun _ => rfl⟩
  · next h => exact ⟨nofun, fun he => absurd he h⟩

theorem indexFault?_eq_none_iff :
    v.indexFault? = none ↔ ∀ e ∈ v.names.entries, v.ids.get? e.2 = some e.1 := by
  simp only [indexFault?, Option.map_eq_none_iff, List.find?_eq_none, ne_eq, decide_not,
    Bool.not_eq_true', decide_eq_false_iff_not, not_not]

theorem wildcardFault?_eq_none_iff (t : Table TypeId Mask) :
    v.wildcardFault? kind t = none ↔ ∀ x ∈ t.keys, x ∈ v.names.keys := by
  simp only [wildcardFault?, Option.map_eq_none_iff, List.find?_eq_none, Bool.not_eq_true',
    Bool.not_eq_false, Table.contains_iff_mem_keys]

theorem targetsFault?_eq_none_iff (t : Table TypePair Mask) :
    v.targetsFault? kind t = none ↔
      ∀ p ∈ t.keys, p.subject ∈ v.names.keys ∧ p.target ∈ v.names.keys := by
  simp only [targetsFault?, Option.map_eq_none_iff, List.find?_eq_none, Bool.or_eq_true,
    Bool.not_eq_true', not_or, Bool.not_eq_false, Table.contains_iff_mem_keys]

theorem fault?_eq_none_iff : v.fault? = none ↔
    v.sizesFault? = none ∧ v.indexFault? = none ∧ v.wildcardFault? .allow v.allow = none ∧
      v.wildcardFault? .deny v.deny = none ∧ v.targetsFault? .allow v.allowOn = none ∧
      v.targetsFault? .deny v.denyOn = none := by
  simp only [fault?, Option.orElse_eq_orElse, Option.orElse_eq_or, Option.or_eq_none_iff]

theorem validate_eq_ok_iff : v.validate = .ok () ↔ v.Valid := by
  have hfault : v.validate = .ok () ↔ ¬currentVersion < v.version ∧ v.fault? = none := by
    rw [validate]
    split
    · next h => exact ⟨nofun, fun hv => absurd h hv.1⟩
    · next h =>
      cases v.fault? with
      | some f => exact ⟨nofun, nofun⟩
      | none => exact ⟨fun _ => ⟨h, rfl⟩, fun _ => rfl⟩
  rw [hfault, fault?_eq_none_iff, sizesFault?_eq_none_iff, indexFault?_eq_none_iff,
    wildcardFault?_eq_none_iff, wildcardFault?_eq_none_iff, targetsFault?_eq_none_iff,
    targetsFault?_eq_none_iff]
  constructor
  · rintro ⟨h₁, h₂, h₃, h₄, h₅, h₆, h₇⟩
    exact ⟨h₁, h₂, h₃, h₄, h₅, h₆, h₇⟩
  · rintro ⟨h₁, h₂, h₃, h₄, h₅, h₆, h₇⟩
    exact ⟨h₁, h₂, h₃, h₄, h₅, h₆, h₇⟩

end Checks

end AccessVector

namespace Merge

/-- What holds of an access vector in the making: the two directions of its type index are written
alike. -/
structure Sound (v : AccessVector) : Prop where
  version : v.version = currentVersion
  ids : v.ids.entries = v.names.entries.map Prod.swap
  allow : ∀ x ∈ v.allow.keys, x ∈ v.names.keys
  deny : ∀ x ∈ v.deny.keys, x ∈ v.names.keys
  allowOn : ∀ p ∈ v.allowOn.keys, p.subject ∈ v.names.keys ∧ p.target ∈ v.names.keys
  denyOn : ∀ p ∈ v.denyOn.keys, p.subject ∈ v.names.keys ∧ p.target ∈ v.names.keys

theorem Sound.empty : Sound .empty := ⟨rfl, rfl, nofun, nofun, nofun, nofun⟩

section Declarations

variable {m : PolicyModule} {s s' : Merge} {v : AccessVector} {name : String} {id : TypeId}

theorem Sound.ids_get?_iff (h : Sound v) :
    v.ids.get? name = some id ↔ v.names.get? id = some name := by
  rw [Table.get?_eq_some_iff, Table.get?_eq_some_iff, h.ids, List.mem_map]
  constructor
  · rintro ⟨e, he, heq⟩
    cases heq
    exact he
  · intro he
    exact ⟨_, he, rfl⟩

theorem Sound.valid (h : Sound v) : v.Valid where
  version := by
    rw [h.version]
    decide
  sizes := by rw [Table.size, Table.size, h.ids, List.length_map]
  index e he := h.ids_get?_iff.2 (Table.get?_eq_some_iff.2 he)
  allow := h.allow
  deny := h.deny
  allowOn := h.allowOn
  denyOn := h.denyOn

/-- A declaration that nothing stands in the way of is new in both directions or in none. -/
theorem Sound.obstacle?_eq_none (h : Sound v) (ho : obstacle? v id name = none) :
    v.names.get? id = some name ∨ v.names.get? id = none ∧ v.ids.get? name = none := by
  unfold obstacle? at ho
  split at ho
  · cases ho
  · cases ho
  · next hn hi =>
    cases hid : v.names.get? id with
    | some existing =>
      rw [hid, Option.filter_eq_none_iff] at hn
      have he : existing = name := by simpa using hn existing rfl
      exact .inl (he ▸ rfl)
    | none =>
      cases hname : v.ids.get? name with
      | none => exact .inr ⟨rfl, rfl⟩
      | some other =>
        rw [hname, Option.filter_eq_none_iff] at hi
        have he : other = id := by simpa using hi other rfl
        rw [he, h.ids_get?_iff, hid] at hname
        cases hname

theorem Sound.insert (h : Sound v) (ho : obstacle? v id name = none) :
    (v.ids.insert name id).entries = (v.names.insert id name).entries.map Prod.swap := by
  rcases h.obstacle?_eq_none ho with hn | ⟨hn, hi⟩
  · rw [Table.insert_of_get? hn, Table.insert_of_get? (h.ids_get?_iff.2 hn), h.ids]
  · have hn' : (v.names.insert id name).entries = v.names.entries ++ [(id, name)] :=
      Table.put_of_notMem (Table.get?_eq_none_iff.1 hn)
    have hi' : (v.ids.insert name id).entries = v.ids.entries ++ [(name, id)] :=
      Table.put_of_notMem (Table.get?_eq_none_iff.1 hi)
    rw [hn', hi', h.ids, List.map_append]
    rfl

theorem Sound.declare (h : Sound s.vector) (hd : s.declare m name id = .ok s') :
    Sound s'.vector ∧ ∀ x, x ∈ s'.vector.names.keys ↔ x = id ∨ x ∈ s.vector.names.keys := by
  have ho : obstacle? s.vector id name = none := by
    simp only [Merge.declare] at hd
    split at hd
    · cases hd
    · next ho => exact ho
  rw [declare_eq hd]
  have hkeys (x : TypeId) : x ∈ (s.vector.names.insert id name).keys ↔
      x = id ∨ x ∈ s.vector.names.keys := Table.mem_keys_insert
  have hgrow {x : TypeId} (hx : x ∈ s.vector.names.keys) :
      x ∈ (s.vector.names.insert id name).keys := (hkeys x).2 (.inr hx)
  refine ⟨⟨h.version, h.insert ho, fun x hx => ?_, fun x hx => ?_, fun p hp => ?_, fun p hp => ?_⟩,
    hkeys⟩
  · exact (hkeys x).2 ((Table.mem_keys_insert.1 hx).imp_right (h.allow x))
  · exact (hkeys x).2 ((Table.mem_keys_insert.1 hx).imp_right (h.deny x))
  · exact ⟨hgrow (h.allowOn p hp).1, hgrow (h.allowOn p hp).2⟩
  · exact ⟨hgrow (h.denyOn p hp).1, hgrow (h.denyOn p hp).2⟩

theorem Sound.foldlM_declare {l : List (String × Nat)} (h : Sound s.vector)
    (hd : l.foldlM (fun s (name, i) => s.declare m name (UInt32.ofNat i)) s = .ok s') :
    Sound s'.vector ∧ ∀ x, x ∈ s'.vector.names.keys ↔
      (l.any fun e => UInt32.ofNat e.2 = x) = true ∨ x ∈ s.vector.names.keys := by
  induction l generalizing s with
  | nil =>
    cases hd
    exact ⟨h, fun x => by simp⟩
  | cons e l ih =>
    rw [List.foldlM_cons, bind_eq_ok_iff] at hd
    obtain ⟨s₁, h₁, hl⟩ := hd
    obtain ⟨hs₁, hkeys₁⟩ := h.declare h₁
    obtain ⟨hs', hkeys⟩ := ih hs₁ hl
    refine ⟨hs', fun x => ?_⟩
    rw [hkeys, hkeys₁, List.any_cons, Bool.or_eq_true, decide_eq_true_eq, @eq_comm _ x,
      or_left_comm, or_assoc]

theorem Sound.declareAll (h : Sound s.vector) (hd : s.declareAll m = .ok s') :
    Sound s'.vector ∧ ∀ x, m.declares x = true → x ∈ s'.vector.names.keys := by
  obtain ⟨hs', hkeys⟩ := h.foldlM_declare hd
  refine ⟨hs', fun x hx => (hkeys x).2 (.inl ?_)⟩
  rw [any_zipIdx_eq_declares]
  exact hx

end Declarations

section Pairs

variable {v : AccessVector} {l : List (TypePair × Mask)}

theorem Sound.foldl_denyPair (h : Sound v)
    (hl : ∀ p ∈ l.map Prod.fst, p.subject ∈ v.names.keys ∧ p.target ∈ v.names.keys) :
    Sound (l.foldl denyPair v) := by
  induction l generalizing v with
  | nil => exact h
  | cons e l ih =>
    refine ih ⟨h.version, h.ids, h.allow, h.deny, h.allowOn, fun p hp => ?_⟩ fun p hp =>
      hl p (List.mem_cons_of_mem _ hp)
    rcases Table.mem_keys_insert.1 hp with rfl | hp
    · exact hl _ (List.mem_cons_self ..)
    · exact h.denyOn p hp

theorem Sound.foldl_allowPair (h : Sound v)
    (hl : ∀ p ∈ l.map Prod.fst, p.subject ∈ v.names.keys ∧ p.target ∈ v.names.keys) :
    Sound (l.foldl allowPair v) := by
  induction l generalizing v with
  | nil => exact h
  | cons e l ih =>
    refine ih ⟨h.version, h.ids, h.allow, h.deny, fun p hp => ?_, h.denyOn⟩ fun p hp =>
      hl p (List.mem_cons_of_mem _ hp)
    rcases Table.mem_keys_insert.1 hp with rfl | hp
    · exact hl _ (List.mem_cons_self ..)
    · exact h.allowOn p hp

end Pairs

variable {ms : List PolicyModule} {m : PolicyModule} {s s' : Merge}

theorem Sound.add (h : Sound s.vector) (hm : m.validate = .ok ()) (ha : s.add m = .ok s') :
    Sound s'.vector := by
  rw [Merge.add, bind_eq_ok_iff] at ha
  obtain ⟨s₁, h₁, he⟩ := ha
  cases he
  obtain ⟨hs₁, hdeclared⟩ := h.declareAll h₁
  have hnamed (kind : RuleKind) : ∀ p ∈ (m.targeted kind).pairs.map Prod.fst,
      p.subject ∈ s₁.vector.names.keys ∧ p.target ∈ s₁.vector.names.keys := by
    intro p hp
    obtain ⟨hs, ht⟩ := PolicyModule.declares_of_validate hm kind hp
    exact ⟨hdeclared _ hs, hdeclared _ ht⟩
  have hdenied : Sound (m.denyOn.pairs.foldl denyPair s₁.vector) :=
    hs₁.foldl_denyPair (hnamed .deny)
  refine hdenied.foldl_allowPair ?_
  -- Denials on targets declare no types.
  have hnames : (m.denyOn.pairs.foldl denyPair s₁.vector).names = s₁.vector.names := by
    rw [foldl_denyPair_eq]
  rw [hnames]
  exact hnamed .allow

theorem foldlM_sound (h : Sound s.vector) (hms : ∀ m ∈ ms, m.validate = .ok ())
    (ha : ms.foldlM Merge.add s = .ok s') : Sound s'.vector := by
  induction ms generalizing s with
  | nil =>
    cases ha
    exact h
  | cons m ms ih =>
    rw [List.foldlM_cons, bind_eq_ok_iff] at ha
    obtain ⟨s₁, h₁, hms'⟩ := ha
    exact ih (h.add (hms m (List.mem_cons_self ..)) h₁)
      (fun m' hm' => hms m' (List.mem_cons_of_mem _ hm')) hms'

end Merge

theorem AccessVector.valid_of_build {ms : List PolicyModule} {v : AccessVector}
    (hms : ∀ m ∈ ms, m.validate = .ok ()) (h : build ms = .ok v) : v.Valid := by
  rw [build, map_eq_ok_iff] at h
  obtain ⟨s, hs, rfl⟩ := h
  exact (Merge.foldlM_sound .empty hms hs).valid

end GuildPolicy
