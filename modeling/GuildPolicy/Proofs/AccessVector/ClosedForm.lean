import GuildPolicy.Proofs.AccessVector.Merge

namespace GuildPolicy

open GuildPolicy.Syntax

/-- What an access vector says, as unions over the modules that it was merged from. -/
structure Merged (ms : List PolicyModule) (v : AccessVector) : Prop where
  denied : ∀ x, v.denied x = wildcardUnion .deny ms x
  allowed : ∀ x, v.allowed x = (wildcardUnion .allow ms x).minus (wildcardUnion .deny ms x)
  deniedOn : ∀ p, v.deniedOn p = gatheredUnion .deny ms p
  allowedOn : ∀ p, v.allowedOn p =
    (gatheredUnion .allow ms p).minus ((v.deniedOn p).union (v.denied p.subject))

namespace Merged

variable {ms : List PolicyModule} {m : PolicyModule} {v v' : AccessVector}

theorem empty : Merged [] .empty :=
  ⟨fun _ => rfl, fun _ => (Mask.empty_minus _).symm, fun _ => rfl, fun _ => rfl⟩

theorem denied_snoc (h : Merged ms v) (ha : Merge.Added m v v') (x : TypeId) :
    v'.denied x = wildcardUnion .deny (ms ++ [m]) x := by
  rw [ha.denied, wildcardUnion_snoc, h.denied]
  rfl

theorem allowed_snoc (h : Merged ms v) (ha : Merge.Added m v v') (x : TypeId) :
    v'.allowed x =
      (wildcardUnion .allow (ms ++ [m]) x).minus (wildcardUnion .deny (ms ++ [m]) x) := by
  rw [ha.allowed, h.denied_snoc ha, wildcardUnion_snoc, wildcardUnion_snoc, h.allowed]
  cases m.declares x with
  | false => rfl
  | true =>
    apply Mask.eq_of_bits
    intro i
    simp only [↓reduceIte, PolicyModule.allowOf, Mask.getLsbD_grant, Mask.getLsbD_minus,
      Mask.getLsbD_union]
    -- A bit that was denied before is denied still.
    cases (wildcardUnion .deny ms x).getLsbD i with
    | false => rw [Bool.not_false, Bool.and_true]
    | true => rw [Bool.true_or, Bool.not_true, Bool.and_false, Bool.and_false]

theorem deniedOn_snoc (h : Merged ms v) (ha : Merge.Added m v v') (p : TypePair) :
    v'.deniedOn p = gatheredUnion .deny (ms ++ [m]) p := by
  rw [ha.deniedOn, gatheredUnion_snoc]
  cases m.listed? .deny p with
  | none => exact h.deniedOn p
  | some bits =>
    change (v.deniedOn p).union (bits.union (v'.denied p.subject)) =
      (gatheredUnion .deny ms p).union (bits.union (wildcardUnion .deny (ms ++ [m]) p.subject))
    rw [h.deniedOn, h.denied_snoc ha]

theorem denials_grow (ha : Merge.Added m v v') (p : TypePair) (i : Nat)
    (hi : ((v.deniedOn p).union (v.denied p.subject)).getLsbD i = true) :
    ((v'.deniedOn p).union (v'.denied p.subject)).getLsbD i = true := by
  rw [Mask.getLsbD_union, Bool.or_eq_true] at hi ⊢
  rcases hi with hi | hi
  · left
    rw [ha.deniedOn]
    split
    · rw [Mask.getLsbD_union, hi, Bool.true_or]
    · exact hi
  · right
    rw [ha.denied]
    split
    · rw [Mask.getLsbD_union, hi, Bool.true_or]
    · exact hi

theorem allowedOn_snoc (h : Merged ms v) (ha : Merge.Added m v v') (p : TypePair) :
    v'.allowedOn p = (gatheredUnion .allow (ms ++ [m]) p).minus
      ((v'.deniedOn p).union (v'.denied p.subject)) := by
  apply Mask.eq_of_bits
  intro i
  have hgrow := denials_grow ha p i
  have hold := congrArg (·.getLsbD i) (h.allowedOn p)
  have hwild := congrArg (·.getLsbD i) (h.allowed_snoc ha p.subject)
  have hdeny := congrArg (·.getLsbD i) (h.denied_snoc ha p.subject)
  change (Mask.minus (Merge.granted v p) _).getLsbD i = _ at hold
  change (Mask.minus (Merge.granted v' p) _).getLsbD i = _
  simp only [Mask.getLsbD_minus] at hold hwild ⊢
  cases hd : ((v'.deniedOn p).union (v'.denied p.subject)).getLsbD i with
  | true => rw [Bool.not_true, Bool.and_false, Bool.and_false]
  | false =>
    -- The bit was not denied before either, so that what was granted agrees with what was gathered.
    have hd' : ((v.deniedOn p).union (v.denied p.subject)).getLsbD i = false := by
      rw [Bool.eq_false_iff]
      intro hi
      rw [hgrow hi] at hd
      cases hd
    rw [hd', Bool.not_false, Bool.and_true, Bool.and_true] at hold
    have hs : (wildcardUnion .deny (ms ++ [m]) p.subject).getLsbD i = false := by
      rw [← hdeny]
      rw [Mask.getLsbD_union, Bool.or_eq_false_iff] at hd
      exact hd.2
    rw [hs, Bool.not_false, Bool.and_true] at hwild
    rw [Bool.not_false, Bool.and_true, Bool.and_true, ha.granted, gatheredUnion_snoc]
    cases m.listed? .allow p with
    | none => exact hold
    | some bits =>
      simp only [Mask.getLsbD_grant, Mask.getLsbD_union, hold, hwild]
      rw [Mask.getLsbD_union] at hd
      rw [hd, Bool.not_false, Bool.and_true]

theorem snoc (h : Merged ms v) (ha : Merge.Added m v v') : Merged (ms ++ [m]) v' :=
  ⟨h.denied_snoc ha, h.allowed_snoc ha, h.deniedOn_snoc ha, h.allowedOn_snoc ha⟩

end Merged

theorem Merge.foldlM_merged {ms : List PolicyModule} {s : Merge}
    (h : ms.foldlM Merge.add .blank = .ok s) : Merged ms s.vector := by
  induction ms using List.reverseRecOn generalizing s with
  | nil =>
    cases h
    exact .empty
  | append_singleton ms m ih =>
    rw [List.foldlM_append, bind_eq_ok_iff] at h
    obtain ⟨s₁, h₁, h⟩ := h
    rw [List.foldlM_cons, bind_eq_ok_iff] at h
    obtain ⟨s₂, h₂, h⟩ := h
    cases h
    exact (ih h₁).snoc (Merge.add_added h₂)

namespace AccessVector

variable {ms ms' : List PolicyModule} {v v' : AccessVector}

theorem build_merged (h : build ms = .ok v) : Merged ms v := by
  rw [build, map_eq_ok_iff] at h
  obtain ⟨s, hs, rfl⟩ := h
  exact Merge.foldlM_merged hs

theorem build_allowed_inter_denied (h : build ms = .ok v) (x : TypeId) :
    (v.allowed x).inter (v.denied x) = .empty := by
  rw [(build_merged h).allowed, (build_merged h).denied]
  exact Mask.minus_inter fun _ hi => hi

/-- What is denied and what is allowed are one union over the modules each, the latter less one union
of denials. Without a target the order of the modules does not matter. -/
theorem build_closed_form (h : build ms = .ok v) (s t : TypeId) :
    v.denied s = wildcardUnion .deny ms s ∧
    v.allowed s = (wildcardUnion .allow ms s).minus (v.denied s) ∧
    v.deniedOn ⟨s, t⟩ = gatheredUnion .deny ms ⟨s, t⟩ ∧
    v.allowedOn ⟨s, t⟩ =
      ((gatheredUnion .allow ms ⟨s, t⟩).minus (v.denied s)).minus (listedUnion .deny ms ⟨s, t⟩) ∧
    ((∀ m ∈ ms, m.listed? .allow ⟨s, t⟩ = none) → v.allowedOn ⟨s, t⟩ = .empty) ∧
    ∀ ms' v', ms'.Perm ms → build ms' = .ok v' →
      v'.denied s = v.denied s ∧ v'.allowed s = v.allowed s := by
  have hv := build_merged h
  have hdenials : (v.deniedOn ⟨s, t⟩).union (v.denied s) =
      (listedUnion .deny ms ⟨s, t⟩).union (v.denied s) := by
    rw [hv.deniedOn, hv.denied]
    exact gatheredUnion_union_wildcardUnion .deny ms ⟨s, t⟩
  refine ⟨hv.denied s, ?_, hv.deniedOn _, ?_, ?_, ?_⟩
  · rw [hv.allowed, hv.denied]
  · rw [hv.allowedOn, hdenials, Mask.minus_minus]
  · intro hnone
    rw [hv.allowedOn, gatheredUnion_eq_empty .allow hnone, Mask.empty_minus]
  · intro ms' v' hperm h'
    have hv' := build_merged h'
    rw [hv'.allowed, hv'.denied, hv.allowed, hv.denied, wildcardUnion_perm .deny s hperm,
      wildcardUnion_perm .allow s hperm]
    exact ⟨rfl, rfl⟩

/-- Members may do 1 and 2 anywhere, and 8 to each other. -/
def membersModule : PolicyModule :=
  ⟨"members", none, 1, ["member"], [3], [0], .ofList [(0, .ofList [(0, 8)])], .empty⟩

/-- Members may not do 1 anywhere, nor 8 to each other. -/
def bansModule : PolicyModule :=
  ⟨"bans", none, 1, ["member"], [], [1], .empty, .ofList [(0, .ofList [(0, 8)])]⟩

theorem build_closed_form_bans : ∃ v, build [membersModule, bansModule] = .ok v ∧
    v.denied 0 = 1 ∧ v.allowed 0 = 2 ∧ v.deniedOn ⟨0, 0⟩ = 9 ∧ v.allowedOn ⟨0, 0⟩ = 2 := by
  obtain ⟨v, h⟩ : ∃ v, build [membersModule, bansModule] = .ok v := ⟨_, rfl⟩
  obtain ⟨hd, ha, hdo, hao, _⟩ := build_closed_form h 0 0
  rw [hd] at ha hao
  exact ⟨v, h, hd.trans (by decide), ha.trans (by decide), hdo.trans (by decide),
    hao.trans (by decide)⟩

end AccessVector

end GuildPolicy
