import GuildPolicy.AccessVector.Merge
import GuildPolicy.Proofs.Permission.Mask
import Mathlib.Data.List.Infix
import Mathlib.Data.List.Nodup

namespace GuildPolicy

open GuildPolicy.Syntax

namespace TargetTable

theorem mem_pairs {t : TargetTable} {p : TypePair} {bits : Mask} :
    (p, bits) ∈ t.pairs ↔ (t.get? p.subject).bind (·.get? p.target) = some bits := by
  simp only [pairs, List.mem_flatMap, List.mem_map, Option.bind_eq_some_iff, Table.get?_eq_some_iff]
  constructor
  · rintro ⟨⟨subject, targets⟩, hs, ⟨target, b⟩, ht, he⟩
    cases he
    exact ⟨targets, hs, ht⟩
  · rintro ⟨targets, hs, ht⟩
    exact ⟨_, hs, _, ht, rfl⟩

theorem nodup_pairs (t : TargetTable) : (t.pairs.map Prod.fst).Nodup := by
  rw [pairs, List.map_flatMap, List.nodup_flatMap]
  constructor
  · rintro ⟨subject, targets⟩ _
    rw [List.map_map]
    have h := targets.nodup
    rw [List.Nodup, List.pairwise_map] at h ⊢
    exact h.imp fun hne he => hne (congrArg TypePair.target he)
  · have h := t.nodup
    rw [List.Nodup, List.pairwise_map] at h
    refine h.imp fun {a b} hne => ?_
    intro p ha hb
    obtain ⟨_, ha', rfl⟩ := List.mem_map.1 ha
    obtain ⟨_, _, rfl⟩ := List.mem_map.1 ha'
    obtain ⟨_, hb', he⟩ := List.mem_map.1 hb
    obtain ⟨_, _, rfl⟩ := List.mem_map.1 hb'
    exact hne (congrArg TypePair.subject he).symm

def flat (t : TargetTable) : Table TypePair Mask := ⟨t.pairs, t.nodup_pairs⟩

theorem get?_flat (t : TargetTable) (p : TypePair) :
    t.flat.get? p = (t.get? p.subject).bind (·.get? p.target) := by
  apply Option.ext
  intro bits
  rw [Table.get?_eq_some_iff]
  exact mem_pairs

end TargetTable

namespace PolicyModule

/-- Whether an id is the place of a type in a module's list. -/
def declares (m : PolicyModule) (id : TypeId) : Bool := id.toNat < m.types.length

/-- What a module's targeted table of one kind has under a pair, if it lists the pair. -/
def listed? (m : PolicyModule) (kind : RuleKind) (p : TypePair) : Option Mask :=
  ((m.targeted kind).get? p.subject).bind (·.get? p.target)

end PolicyModule

/-- The wildcard permissions of a type over the modules that declare it. -/
def wildcardUnion (kind : RuleKind) (ms : List PolicyModule) (id : TypeId) : Mask :=
  Mask.unionAll ((ms.filter (·.declares id)).map (·.bitsOf kind id))

/-- The targeted permissions of a pair over the modules that list it. -/
def listedUnion (kind : RuleKind) (ms : List PolicyModule) (p : TypePair) : Mask :=
  Mask.unionAll (ms.filterMap (·.listed? kind p))

/-- What the last of some modules gives a pair that it lists: its targeted permissions, and the
wildcard permissions that the subject has gathered up to it. -/
def gathered? (kind : RuleKind) (upTo : List PolicyModule) (p : TypePair) : Option Mask :=
  (upTo.getLast?.bind (·.listed? kind p)).map (·.union (wildcardUnion kind upTo p.subject))

/-- What a pair gathers over the modules that list it. -/
def gatheredUnion (kind : RuleKind) (ms : List PolicyModule) (p : TypePair) : Mask :=
  Mask.unionAll (ms.inits.filterMap fun upTo => gathered? kind upTo p)

section Lemmas

variable (kind : RuleKind) (ms : List PolicyModule) (m : PolicyModule) (id : TypeId) (p : TypePair)

theorem wildcardUnion_append (ms' : List PolicyModule) :
    wildcardUnion kind (ms ++ ms') id =
      (wildcardUnion kind ms id).union (wildcardUnion kind ms' id) := by
  rw [wildcardUnion, List.filter_append, List.map_append, Mask.unionAll_append]
  rfl

theorem wildcardUnion_snoc :
    wildcardUnion kind (ms ++ [m]) id =
      if m.declares id then (wildcardUnion kind ms id).union (m.bitsOf kind id)
      else wildcardUnion kind ms id := by
  rw [wildcardUnion_append]
  cases h : m.declares id with
  | false =>
    have : wildcardUnion kind [m] id = .empty := by simp [wildcardUnion, h]
    rw [this]
    exact Mask.union_empty _
  | true =>
    have : wildcardUnion kind [m] id = m.bitsOf kind id := by
      simp [wildcardUnion, h, Mask.unionAll_singleton]
    rw [this]
    rfl

theorem gatheredUnion_snoc :
    gatheredUnion kind (ms ++ [m]) p =
      match m.listed? kind p with
      | some bits => (gatheredUnion kind ms p).union
          (bits.union (wildcardUnion kind (ms ++ [m]) p.subject))
      | none => gatheredUnion kind ms p := by
  have hlast : gathered? kind (ms ++ [m]) p =
      (m.listed? kind p).map (·.union (wildcardUnion kind (ms ++ [m]) p.subject)) := by
    rw [gathered?, List.getLast?_append, List.getLast?_singleton]
    rfl
  have hinits : (ms ++ [m]).inits = ms.inits ++ [ms ++ [m]] := List.inits_append ms [m]
  rw [gatheredUnion, hinits, List.filterMap_append, Mask.unionAll_append]
  cases hm : m.listed? kind p with
  | none =>
    have : [ms ++ [m]].filterMap (fun upTo => gathered? kind upTo p) = [] :=
      List.filterMap_cons_none (by rw [hlast, hm]; rfl)
    rw [this, Mask.unionAll_nil, Mask.union_empty]
    rfl
  | some bits =>
    have : [ms ++ [m]].filterMap (fun upTo => gathered? kind upTo p) =
        [bits.union (wildcardUnion kind (ms ++ [m]) p.subject)] :=
      List.filterMap_cons_some (by rw [hlast, hm]; rfl)
    rw [this, Mask.unionAll_singleton]
    rfl

theorem listedUnion_snoc :
    listedUnion kind (ms ++ [m]) p =
      match m.listed? kind p with
      | some bits => (listedUnion kind ms p).union bits
      | none => listedUnion kind ms p := by
  rw [listedUnion, List.filterMap_append, Mask.unionAll_append]
  cases hm : m.listed? kind p with
  | none =>
    have : [m].filterMap (·.listed? kind p) = [] := List.filterMap_cons_none hm
    rw [this, Mask.unionAll_nil, Mask.union_empty]
    rfl
  | some bits =>
    have : [m].filterMap (·.listed? kind p) = [bits] := List.filterMap_cons_some hm
    rw [this, Mask.unionAll_singleton]
    rfl

/-- Where the subject's own wildcard permissions count anyway, what a pair gathers of them does not
matter. -/
theorem gatheredUnion_union_wildcardUnion :
    (gatheredUnion kind ms p).union (wildcardUnion kind ms p.subject) =
      (listedUnion kind ms p).union (wildcardUnion kind ms p.subject) := by
  induction ms using List.reverseRecOn with
  | nil => rfl
  | append_singleton ms m ih =>
    apply Mask.eq_of_bits
    intro i
    have hi := congrArg (·.getLsbD i) ih
    have hgrow : (wildcardUnion kind ms p.subject).getLsbD i = true →
        (wildcardUnion kind (ms ++ [m]) p.subject).getLsbD i = true := by
      intro h
      rw [wildcardUnion_append, Mask.getLsbD_union, h, Bool.true_or]
    rw [gatheredUnion_snoc, listedUnion_snoc]
    simp only [Mask.getLsbD_union] at hi ⊢
    cases hw : (wildcardUnion kind (ms ++ [m]) p.subject).getLsbD i with
    | true => rw [Bool.or_true, Bool.or_true]
    | false =>
      have hw' : (wildcardUnion kind ms p.subject).getLsbD i = false := by
        rw [Bool.eq_false_iff]
        intro h
        rw [hgrow h] at hw
        cases hw
      rw [hw', Bool.or_false, Bool.or_false] at hi
      cases m.listed? kind p with
      | none => rw [hi]
      | some bits => simp only [Mask.getLsbD_union, hi, hw, Bool.or_false]

variable {ms p} in
theorem gatheredUnion_eq_empty (h : ∀ m ∈ ms, m.listed? kind p = none) :
    gatheredUnion kind ms p = .empty := by
  induction ms using List.reverseRecOn with
  | nil => rfl
  | append_singleton ms m ih =>
    rw [gatheredUnion_snoc, h m (List.mem_append_right _ (List.mem_singleton_self m))]
    exact ih fun m' hm' => h m' (List.mem_append_left _ hm')

theorem wildcardUnion_perm {ms ms' : List PolicyModule} (h : ms.Perm ms') :
    wildcardUnion kind ms id = wildcardUnion kind ms' id :=
  Mask.unionAll_perm ((h.filter _).map _)

end Lemmas

end GuildPolicy
