import GuildPolicy.Module.Validity
import GuildPolicy.Proofs.Module.Compile

namespace GuildPolicy

open GuildPolicy.Syntax

namespace PolicyModule

variable {m : PolicyModule} {v : Vocabulary} {ss : List Statement} {kind : RuleKind}

theorem typesFault?_eq_none {module : String} {seen types : List String} (hnodup : types.Nodup)
    (htypes : ∀ t ∈ types, t ≠ "" ∧ t ∉ seen) : typesFault? module seen types = none := by
  induction types generalizing seen with
  | nil => rfl
  | cons t types ih =>
    obtain ⟨⟨hempty, hseen⟩, htypes⟩ := List.forall_mem_cons.1 htypes
    obtain ⟨ht, hnodup⟩ := List.nodup_cons.1 hnodup
    rw [typesFault?, if_neg hempty, if_neg hseen]
    refine ih hnodup fun t' ht' => ⟨(htypes t' ht').1, ?_⟩
    rw [List.mem_cons, not_or]
    exact ⟨fun he => ht (he ▸ ht'), (htypes t' ht').2⟩

theorem lt_of_mem_pairs {rs : List Rule} {s t : TypeId} (h : (s, t) ∈ m.pairs kind rs) :
    s.toNat < m.types.length ∧ t.toNat < m.types.length := by
  obtain ⟨r, -, hr⟩ := List.mem_filterMap.1 h
  rw [pair?] at hr
  split at hr
  · cases hr
  · obtain ⟨s', hs, hr⟩ := Option.bind_eq_some_iff.1 hr
    obtain ⟨t', ht, hr⟩ := Option.bind_eq_some_iff.1 hr
    cases hr
    exact ⟨lt_of_typeId? hs, lt_of_typeId? ht⟩

namespace Means

variable (h : m.Means v ss)

include h

theorem typesFault?_eq_none (hss : ∀ s ∈ ss, s.IsSpelled) :
    typesFault? m.name [] m.types = none := by
  rw [h.types]
  refine PolicyModule.typesFault?_eq_none (nodup_eraseDups _) fun t ht => ⟨?_, List.not_mem_nil⟩
  obtain ⟨s, hs, ht⟩ := List.mem_flatMap.1 (List.mem_eraseDups.1 ht)
  cases s with
  | require block =>
    obtain ⟨name, hname, rfl⟩ := List.mem_map.1 ht
    exact hss _ hs name hname
  | module block => cases ht
  | rule r => cases ht

theorem wildcardFault?_eq_none : m.wildcardFault? = none := by
  have hallow : m.allow.length = m.types.length := h.wildcard_length .allow
  have hdeny : m.deny.length = m.types.length := h.wildcard_length .deny
  rw [wildcardFault?, hallow, hdeny, Nat.max_self]
  exact if_neg (Nat.lt_irrefl _)

theorem lt_of_mem_targeted {s : TypeId} {targets : Table TypeId Mask}
    (he : (s, targets) ∈ (m.targeted kind).entries) :
    s.toNat < m.types.length ∧ ∀ t ∈ targets.keys, t.toNat < m.types.length := by
  constructor
  · have hkey : s ∈ (m.targeted kind).keys := List.mem_map.2 ⟨(s, targets), he, rfl⟩
    rw [h.subjects, List.mem_eraseDups, List.mem_map] at hkey
    obtain ⟨⟨_, t⟩, hpair, rfl⟩ := hkey
    exact (lt_of_mem_pairs hpair).1
  · intro t ht
    rw [h.targets kind s targets (Table.get?_eq_some_iff.2 he), List.mem_eraseDups,
      List.mem_map] at ht
    obtain ⟨⟨_, t⟩, hpair, rfl⟩ := ht
    exact (lt_of_mem_pairs (List.mem_filter.1 hpair).1).2

theorem targetsFault?_eq_none (kind : RuleKind) : m.targetsFault? kind = none := by
  rw [targetsFault?, Option.map_eq_none_iff, List.find?_eq_none]
  intro id hid
  rw [decide_eq_true_iff, Nat.not_le]
  obtain ⟨⟨s, targets⟩, he, hid⟩ := List.mem_flatMap.1 hid
  obtain ⟨hsubject, htargets⟩ := h.lt_of_mem_targeted he
  rcases List.mem_cons.1 hid with rfl | hid
  · exact hsubject
  · exact htargets id hid

/-- Only a name can be missing. -/
theorem validate_eq_ok_iff (hss : ∀ s ∈ ss, s.IsSpelled) : m.validate = .ok () ↔ m.name ≠ "" := by
  rw [validate, fault?]
  by_cases hname : m.name = ""
  · rw [if_pos hname]
    exact ⟨nofun, fun hne => absurd hname hne⟩
  · rw [if_neg hname, h.typesFault?_eq_none hss, h.wildcardFault?_eq_none,
      h.targetsFault?_eq_none, h.targetsFault?_eq_none]
    exact ⟨fun _ => hname, fun _ => rfl⟩

end Means

theorem validate_of_compile {source filename : String} (h : compile v source filename = .ok m) :
    m.validate = .ok () ↔ m.name ≠ "" := by
  obtain ⟨p, hp, hmeans⟩ := means_of_compile h
  exact hmeans.validate_eq_ok_iff (isSpelled_of_parse hp).2

end PolicyModule

end GuildPolicy
