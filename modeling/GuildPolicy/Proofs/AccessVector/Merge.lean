import GuildPolicy.Proofs.AccessVector.Union
import GuildPolicy.Proofs.Outcome

namespace GuildPolicy

open GuildPolicy.Syntax

namespace Merge

variable {m : PolicyModule} {s s' : Merge} {v v₁ v₂ : AccessVector}

/-- What an access vector allows a pair before denials are taken away. -/
def granted (v : AccessVector) (p : TypePair) : Mask := (v.allowOn.get? p).getD .empty

/-- What declaring some types of a module does to the tables of permissions. -/
structure Declared (m : PolicyModule) (types : TypeId → Bool) (v v' : AccessVector) : Prop where
  denied : ∀ x, v'.denied x = if types x then (v.denied x).union (m.denyOf x) else v.denied x
  allowed : ∀ x, v'.allowed x =
    if types x then (v.allowed x).grant (m.allowOf x) (v'.denied x) else v.allowed x
  denyOn : v'.denyOn = v.denyOn
  allowOn : v'.allowOn = v.allowOn

theorem Declared.refl (m : PolicyModule) (v : AccessVector) : Declared m (fun _ => false) v v :=
  ⟨fun _ => rfl, fun _ => rfl, rfl, rfl⟩

theorem Declared.trans {types₁ types₂ : TypeId → Bool} (h₁ : Declared m types₁ v v₁)
    (h₂ : Declared m types₂ v₁ v₂) : Declared m (fun x => types₁ x || types₂ x) v v₂ := by
  refine ⟨?_, ?_, h₂.denyOn.trans h₁.denyOn, h₂.allowOn.trans h₁.allowOn⟩
  · intro x
    apply Mask.eq_of_bits
    intro i
    rw [h₂.denied, h₁.denied]
    cases types₁ x <;> cases types₂ x <;> simp [Mask.getLsbD_union]
  · intro x
    apply Mask.eq_of_bits
    intro i
    rw [h₂.allowed, h₂.denied, h₁.allowed, h₁.denied]
    cases types₁ x <;> cases types₂ x <;>
      simp only [Bool.false_eq_true, ↓reduceIte, Bool.or_true, Bool.or_false,
        Mask.getLsbD_grant, Mask.getLsbD_union]
    cases (v.allowed x).getLsbD i <;> cases (m.allowOf x).getLsbD i <;>
      cases (v.denied x).getLsbD i <;> cases (m.denyOf x).getLsbD i <;> rfl

theorem declare_eq {name : String} {id : TypeId} (h : s.declare m name id = .ok s') :
    s'.vector = { s.vector with
      names := s.vector.names.insert id name
      ids := s.vector.ids.insert name id
      deny := s.vector.deny.insert id ((s.vector.denied id).union (m.denyOf id))
      allow := s.vector.allow.insert id ((s.vector.allowed id).grant (m.allowOf id)
        ((s.vector.denied id).union (m.denyOf id))) } := by
  simp only [declare] at h
  split at h
  · cases h
  · cases h
    rfl

theorem declare_declared {name : String} {id : TypeId} (h : s.declare m name id = .ok s') :
    Declared m (fun x => id = x) s.vector s'.vector := by
  rw [declare_eq h]
  have hdenied (x : TypeId) : ((s.vector.deny.insert id
      ((s.vector.denied id).union (m.denyOf id))).get? x).getD .empty =
      if id = x then (s.vector.denied x).union (m.denyOf x) else s.vector.denied x := by
    rw [Table.get?_insert]
    split
    · next hx => subst hx; rfl
    · rfl
  refine ⟨fun x => ?_, fun x => ?_, rfl, rfl⟩
  · simp only [decide_eq_true_eq]
    exact hdenied x
  · simp only [decide_eq_true_eq, AccessVector.allowed, AccessVector.denied, Table.get?_insert]
    split
    · next hx => subst hx; rfl
    · rfl

theorem foldlM_declare_declared {l : List (String × Nat)}
    (h : l.foldlM (fun s (name, i) => s.declare m name (UInt32.ofNat i)) s = .ok s') :
    Declared m (fun x => l.any fun e => UInt32.ofNat e.2 = x) s.vector s'.vector := by
  induction l generalizing s with
  | nil =>
    cases h
    exact .refl m _
  | cons e l ih =>
    rw [List.foldlM_cons, bind_eq_ok_iff] at h
    obtain ⟨s₁, hd, hl⟩ := h
    exact (declare_declared hd).trans (ih hl)

theorem any_zipIdx_eq_declares (m : PolicyModule) (id : TypeId) :
    (m.types.zipIdx.any fun e => UInt32.ofNat e.2 = id) = m.declares id := by
  rw [PolicyModule.declares, Bool.eq_iff_iff, List.any_eq_true, decide_eq_true_eq]
  constructor
  · rintro ⟨⟨t, i⟩, hm, he⟩
    have hi := (List.mem_zipIdx' hm).1
    have : id.toNat = i % 2 ^ 32 := by
      rw [← of_decide_eq_true he]
      exact UInt32.toNat_ofNat'
    exact this ▸ Nat.lt_of_le_of_lt (Nat.mod_le _ _) hi
  · intro h
    exact ⟨(m.types[id.toNat], id.toNat), List.mk_mem_zipIdx_iff_getElem?.2 (List.getElem?_eq_getElem h),
      decide_eq_true UInt32.ofNat_toNat⟩

theorem declareAll_declared (h : s.declareAll m = .ok s') :
    Declared m m.declares s.vector s'.vector := by
  have hd := foldlM_declare_declared h
  rw [funext (any_zipIdx_eq_declares m)] at hd
  exact hd

theorem foldl_denyPair_eq (l : List (TypePair × Mask)) (v : AccessVector) :
    l.foldl denyPair v = { v with denyOn := (l.foldl denyPair v).denyOn } := by
  induction l generalizing v with
  | nil => rfl
  | cons e l ih => exact ih (denyPair v e)

theorem foldl_allowPair_eq (l : List (TypePair × Mask)) (v : AccessVector) :
    l.foldl allowPair v = { v with allowOn := (l.foldl allowPair v).allowOn } := by
  induction l generalizing v with
  | nil => rfl
  | cons e l ih => exact ih (allowPair v e)

section Frames

variable (l : List (TypePair × Mask)) (v : AccessVector) (x : TypeId) (p : TypePair)

theorem denied_foldl_denyPair : (l.foldl denyPair v).denied x = v.denied x := by
  rw [foldl_denyPair_eq]
  rfl

theorem allowed_foldl_denyPair : (l.foldl denyPair v).allowed x = v.allowed x := by
  rw [foldl_denyPair_eq]
  rfl

theorem granted_foldl_denyPair : granted (l.foldl denyPair v) p = granted v p := by
  rw [foldl_denyPair_eq]
  rfl

theorem denied_foldl_allowPair : (l.foldl allowPair v).denied x = v.denied x := by
  rw [foldl_allowPair_eq]
  rfl

theorem allowed_foldl_allowPair : (l.foldl allowPair v).allowed x = v.allowed x := by
  rw [foldl_allowPair_eq]
  rfl

theorem deniedOn_foldl_allowPair : (l.foldl allowPair v).deniedOn p = v.deniedOn p := by
  rw [foldl_allowPair_eq]
  rfl

end Frames

theorem deniedOn_denyPair (v : AccessVector) (e : TypePair × Mask) (p : TypePair) :
    (denyPair v e).deniedOn p =
      if e.1 = p then (v.deniedOn p).union (e.2.union (v.denied p.subject)) else v.deniedOn p := by
  simp only [denyPair, AccessVector.deniedOn, Table.update, Table.get?_insert]
  split
  · next h => subst h; rfl
  · rfl

theorem granted_allowPair (v : AccessVector) (e : TypePair × Mask) (p : TypePair) :
    granted (allowPair v e) p =
      if e.1 = p then (granted v p).grant (e.2.union (v.allowed p.subject))
        ((v.deniedOn p).union (v.denied p.subject))
      else granted v p := by
  simp only [allowPair, granted, Table.update, Table.get?_insert]
  split
  · next h => subst h; rfl
  · rfl

/-- Keys are distinct, so that the fold comes to a pair at most once. -/
theorem deniedOn_foldl_denyPair {l : List (TypePair × Mask)} (hl : (l.map Prod.fst).Nodup)
    (v : AccessVector) (p : TypePair) :
    (l.foldl denyPair v).deniedOn p =
      match Table.find? p l with
      | some bits => (v.deniedOn p).union (bits.union (v.denied p.subject))
      | none => v.deniedOn p := by
  induction l generalizing v with
  | nil => rfl
  | cons e l ih =>
    rw [List.map_cons, List.nodup_cons] at hl
    have hdenied : (denyPair v e).denied p.subject = v.denied p.subject := rfl
    rw [List.foldl_cons, ih hl.2, deniedOn_denyPair, hdenied, Table.find?]
    by_cases he : e.1 = p
    · have hnone : Table.find? p l = none := (Table.find?_eq_none_iff p l).2 (he ▸ hl.1)
      simp only [hnone, he, ↓reduceIte]
    · simp only [he, ↓reduceIte]

theorem granted_foldl_allowPair {l : List (TypePair × Mask)} (hl : (l.map Prod.fst).Nodup)
    (v : AccessVector) (p : TypePair) :
    granted (l.foldl allowPair v) p =
      match Table.find? p l with
      | some bits => (granted v p).grant (bits.union (v.allowed p.subject))
          ((v.deniedOn p).union (v.denied p.subject))
      | none => granted v p := by
  induction l generalizing v with
  | nil => rfl
  | cons e l ih =>
    rw [List.map_cons, List.nodup_cons] at hl
    have hallowed : (allowPair v e).allowed p.subject = v.allowed p.subject := rfl
    have hdenied : (allowPair v e).denied p.subject = v.denied p.subject := rfl
    have hdeniedOn : (allowPair v e).deniedOn p = v.deniedOn p := rfl
    rw [List.foldl_cons, ih hl.2, granted_allowPair, hallowed, hdenied, hdeniedOn, Table.find?]
    by_cases he : e.1 = p
    · have hnone : Table.find? p l = none := (Table.find?_eq_none_iff p l).2 (he ▸ hl.1)
      simp only [hnone, he, ↓reduceIte]
    · simp only [he, ↓reduceIte]

/-- What adding a module does to the tables of permissions. -/
structure Added (m : PolicyModule) (v v' : AccessVector) : Prop where
  denied : ∀ x, v'.denied x = if m.declares x then (v.denied x).union (m.denyOf x) else v.denied x
  allowed : ∀ x, v'.allowed x =
    if m.declares x then (v.allowed x).grant (m.allowOf x) (v'.denied x) else v.allowed x
  deniedOn : ∀ p, v'.deniedOn p =
    match m.listed? .deny p with
    | some bits => (v.deniedOn p).union (bits.union (v'.denied p.subject))
    | none => v.deniedOn p
  granted : ∀ p, granted v' p =
    match m.listed? .allow p with
    | some bits => (granted v p).grant (bits.union (v'.allowed p.subject))
        ((v'.deniedOn p).union (v'.denied p.subject))
    | none => granted v p

theorem add_added (h : s.add m = .ok s') : Added m s.vector s'.vector := by
  rw [add, bind_eq_ok_iff] at h
  obtain ⟨s₁, h₁, he⟩ := h
  cases he
  have hd := declareAll_declared h₁
  have hlisted (t : TargetTable) (p : TypePair) :
      Table.find? p t.pairs = (t.get? p.subject).bind (·.get? p.target) := t.get?_flat p
  refine ⟨fun x => ?_, fun x => ?_, fun p => ?_, fun p => ?_⟩
  · rw [denied_foldl_allowPair, denied_foldl_denyPair]
    exact hd.denied x
  · rw [allowed_foldl_allowPair, allowed_foldl_denyPair, denied_foldl_allowPair,
      denied_foldl_denyPair]
    exact hd.allowed x
  · have hs : s₁.vector.deniedOn p = s.vector.deniedOn p := by
      rw [AccessVector.deniedOn, AccessVector.deniedOn, hd.denyOn]
    rw [deniedOn_foldl_allowPair, denied_foldl_allowPair, denied_foldl_denyPair,
      deniedOn_foldl_denyPair m.denyOn.nodup_pairs, hlisted, hs]
    rfl
  · have hs : granted s₁.vector p = granted s.vector p := by
      rw [granted, granted, hd.allowOn]
    rw [granted_foldl_allowPair m.allowOn.nodup_pairs, hlisted, granted_foldl_denyPair,
      allowed_foldl_denyPair, denied_foldl_denyPair, allowed_foldl_allowPair,
      allowed_foldl_denyPair, deniedOn_foldl_allowPair, denied_foldl_allowPair,
      denied_foldl_denyPair, hs]
    rfl

end Merge

end GuildPolicy
