import GuildPolicy.Proofs.Module.Meaning
import Mathlib.Data.List.Induction
import Mathlib.Data.List.Nodup

namespace GuildPolicy

open GuildPolicy.Source GuildPolicy.Syntax

variable {α : Type} {v : Vocabulary} {ss : List Statement} {s : Statement}

namespace PolicyModule

variable {m : PolicyModule} {name : String} {id : TypeId}

theorem typeId?_eq_none_iff : m.typeId? name = none ↔ name ∉ m.types := by
  rw [typeId?, Option.map_eq_none_iff, List.idxOf?_eq_none_iff]

theorem lt_of_typeId? (h : m.typeId? name = some id) : id.toNat < m.types.length := by
  rw [typeId?, Option.map_eq_some_iff] at h
  obtain ⟨i, hi, rfl⟩ := h
  obtain ⟨hlt, _⟩ := List.idxOf?_eq_some_iff.1 hi
  rw [UInt32.toNat_ofNat']
  exact Nat.lt_of_le_of_lt (Nat.mod_le ..) hlt

/-- Types that are listed once have their places as ids, as far as ids go. -/
theorem typeId?_getElem (hnodup : m.types.Nodup) (hlen : m.types.length ≤ UInt32.size) {i : Nat}
    (h : i < m.types.length) :
    m.typeId? m.types[i] = some (UInt32.ofNat i) ∧ (UInt32.ofNat i).toNat = i := by
  refine ⟨?_, UInt32.toNat_ofNat_of_lt' (Nat.lt_of_lt_of_le h hlen)⟩
  rw [typeId?, List.idxOf?_eq_some_iff.2 ⟨h, rfl, fun j hj he => ?_⟩]
  · rfl
  · exact Nat.ne_of_lt hj (hnodup.getElem_inj_iff.1 he)

end PolicyModule

section Concat

theorem declared?_concat (field : String) : declared? (ss ++ [s]) field =
    (s.properties.reverse.find? (·.name = field)).or (declared? ss field) := by
  rw [declared?, List.flatMap_append, List.flatMap_singleton, List.reverse_append,
    List.find?_append]
  rfl

theorem requiredNames_concat : requiredNames (ss ++ [s]) = requiredNames ss ++ s.requiredNames := by
  rw [requiredNames, List.flatMap_append, List.flatMap_singleton]
  rfl

theorem rules_concat : rules (ss ++ [s]) = rules ss ++ s.rule?.toList := by
  rw [rules, List.filterMap_append]
  cases hs : s.rule? with
  | none => rw [List.filterMap_cons_none hs]; rfl
  | some r => rw [List.filterMap_cons_some hs]; rfl

theorem eraseDups_concat [DecidableEq α] (l : List α) (a : α) :
    (l ++ [a]).eraseDups = if a ∈ l then l.eraseDups else l.eraseDups ++ [a] := by
  rw [List.eraseDups_append]
  by_cases h : a ∈ l
  · have hremoved : [a].removeAll l = [] := by simp [List.removeAll, h]
    rw [hremoved, if_pos h]
    exact List.append_nil _
  · have hkept : [a].removeAll l = [a] := by simp [List.removeAll, h]
    rw [hkept, if_neg h]
    rfl

theorem nodup_eraseDups [DecidableEq α] (l : List α) : l.eraseDups.Nodup := by
  induction l using List.reverseRecOn with
  | nil => exact .nil
  | append_singleton l a ih =>
    rw [eraseDups_concat]
    split
    · exact ih
    · next h =>
      rw [List.nodup_append]
      refine ⟨ih, List.nodup_singleton a, fun b hb c hc => ?_⟩
      rw [List.mem_singleton.1 hc]
      rintro rfl
      exact h (List.mem_eraseDups.1 hb)

end Concat

namespace PolicyModule.Means

variable {m : PolicyModule}

theorem addModule (h : m.Means v ss) (block : ModuleBlock) :
    Means { m with
      name := ((block.property? "name").map (·.value.value)).getD m.name
      author := ((block.property? "author").map (·.value.value)).or m.author
      version := ((block.property? "version").map fun p =>
        UInt32.ofNat (p.value.natural?.getD 0)).getD m.version } v (ss ++ [.module block]) := by
  have hrules : rules (ss ++ [.module block]) = rules ss := by
    rw [rules_concat]
    exact List.append_nil _
  have hnames : requiredNames (ss ++ [.module block]) = requiredNames ss := by
    rw [requiredNames_concat]
    exact List.append_nil _
  have hdeclared (field : String) : declared? (ss ++ [.module block]) field =
      (block.property? field).or (declared? ss field) := declared?_concat field
  refine ⟨?_, ?_, ?_, ?_, h.ids, h.wildcard_length, ?_, ?_, ?_, ?_⟩
  · rw [hdeclared, h.name]
    cases block.property? "name" with
    | none => rfl
    | some p => rfl
  · rw [hdeclared, h.author]
    cases block.property? "author" with
    | none => rfl
    | some p => rfl
  · rw [hdeclared, h.version]
    cases block.property? "version" with
    | none => rfl
    | some p => rfl
  · rw [hnames]
    exact h.types
  · rw [hrules]
    exact h.wildcard
  · rw [hrules]
    exact h.targeted
  · rw [hrules]
    exact h.subjects
  · rw [hrules]
    exact h.targets

/-- The first require block lists the types, before there are any rules. -/
theorem addRequire (h : m.Means v ss) (hnames : requiredNames ss = []) (hrules : rules ss = [])
    (block : RequireBlock) :
    Means { m with
      types := (block.types.map Name.text).eraseDups
      allow := List.replicate (block.types.map Name.text).eraseDups.length .empty
      deny := List.replicate (block.types.map Name.text).eraseDups.length .empty } v
      (ss ++ [.require block]) := by
  have hrules' : rules (ss ++ [.require block]) = [] := by
    rw [rules_concat, hrules]
    rfl
  have hdeclared (field : String) : declared? (ss ++ [.require block]) field =
      declared? ss field := declared?_concat field
  have htargeted := h.targeted
  have hsubjects := h.subjects
  have htargets := h.targets
  rw [hrules] at htargeted hsubjects htargets
  refine ⟨?_, ?_, ?_, ?_, ?_, ?_, ?_, ?_, ?_, ?_⟩
  · rw [hdeclared]
    exact h.name
  · rw [hdeclared]
    exact h.author
  · rw [hdeclared]
    exact h.version
  · rw [requiredNames_concat, hnames]
    rfl
  · intro hlen i hi
    exact typeId?_getElem (nodup_eraseDups _) hlen hi
  · intro kind
    cases kind with
    | allow => exact List.length_replicate
    | deny => exact List.length_replicate
  · intro kind id
    rw [hrules']
    have hempty (n : Nat) : ((List.replicate n Mask.empty)[id.toNat]?).getD .empty = .empty := by
      rw [List.getElem?_replicate]
      split
      · rfl
      · rfl
    cases kind with
    | allow => exact hempty _
    | deny => exact hempty _
  · rw [hrules']
    exact htargeted
  · rw [hrules']
    exact hsubjects
  · rw [hrules']
    exact htargets

end PolicyModule.Means

namespace PolicyModule

variable {m : PolicyModule} {r : Rule} {rs : List Rule} {kind kind' : RuleKind} {bits : Mask}
variable {subject target id t : TypeId}

theorem wildcardRule?_concat : m.wildcardRule? (rs ++ [r]) kind id =
    if r.kind = kind ∧ r.target = .any ∧ m.typeId? r.subject.text = some id then some r
    else m.wildcardRule? rs kind id := by
  rw [wildcardRule?, List.reverse_append, List.reverse_singleton, List.singleton_append,
    List.find?_cons]
  split
  · next h => rw [if_pos (of_decide_eq_true h)]
  · next h =>
    rw [if_neg (of_decide_eq_false h)]
    rfl

theorem targetedRule?_concat : m.targetedRule? (rs ++ [r]) kind id t =
    if r.kind = kind ∧ m.pair? r = some (id, t) then some r
    else m.targetedRule? rs kind id t := by
  rw [targetedRule?, List.reverse_append, List.reverse_singleton, List.singleton_append,
    List.find?_cons]
  split
  · next h => rw [if_pos (of_decide_eq_true h)]
  · next h =>
    rw [if_neg (of_decide_eq_false h)]
    rfl

theorem pairs_concat : m.pairs kind (rs ++ [r]) =
    m.pairs kind rs ++ if r.kind = kind then (m.pair? r).toList else [] := by
  rw [pairs, List.filter_append, List.filterMap_append]
  by_cases hkind : r.kind = kind
  · have hkept : [r].filter (·.kind = kind) = [r] := List.filter_cons_of_pos (decide_eq_true hkind)
    rw [if_pos hkind, hkept]
    cases hp : m.pair? r with
    | none => rw [List.filterMap_cons_none hp]; rfl
    | some p => rw [List.filterMap_cons_some hp]; rfl
  · have hdropped : [r].filter (·.kind = kind) = [] :=
      List.filter_cons_of_neg (by rwa [decide_eq_true_eq])
    rw [if_neg hkind, hdropped]
    rfl

theorem record_header (m : PolicyModule) (kind : RuleKind) (subject : TypeId)
    (target? : Option TypeId) (bits : Mask) :
    (Draft.record m kind subject target? bits).name = m.name ∧
    (Draft.record m kind subject target? bits).author = m.author ∧
    (Draft.record m kind subject target? bits).version = m.version ∧
    (Draft.record m kind subject target? bits).types = m.types := by
  cases kind with
  | allow | deny =>
    cases target? with
    | none | some => exact ⟨rfl, rfl, rfl, rfl⟩

theorem wildcard_record_none : (Draft.record m kind subject none bits).wildcard kind' =
    if kind = kind' then (m.wildcard kind').set subject.toNat bits else m.wildcard kind' := by
  cases kind with
  | allow | deny =>
    cases kind' with
    | allow | deny => rfl

theorem targeted_record_none :
    (Draft.record m kind subject none bits).targeted kind' = m.targeted kind' := by
  cases kind with
  | allow | deny =>
    cases kind' with
    | allow | deny => rfl

theorem wildcard_record_some :
    (Draft.record m kind subject (some target) bits).wildcard kind' = m.wildcard kind' := by
  cases kind with
  | allow | deny =>
    cases kind' with
    | allow | deny => rfl

theorem targeted_record_some : (Draft.record m kind subject (some target) bits).targeted kind' =
    if kind = kind' then (m.targeted kind').update subject .empty (·.insert target bits)
    else m.targeted kind' := by
  cases kind with
  | allow | deny =>
    cases kind' with
    | allow | deny => rfl

end PolicyModule

namespace PolicyModule.Means

variable {m : PolicyModule} {r : Rule} {subject target : TypeId}

theorem addRule (h : m.Means v ss) {target? : Option TypeId} {bits : Mask} {m' : PolicyModule}
    (hm' : m' = Draft.record m r.kind subject target? bits)
    (wildcard_length : ∀ kind, (m'.wildcard kind).length = (m.wildcard kind).length)
    (wildcard : ∀ kind id, m'.bitsOf kind id =
      ((m.wildcardRule? (rules ss ++ [r]) kind id).map (·.bits v)).getD .empty)
    (targeted : ∀ kind s t, ((m'.targeted kind).get? s).bind (·.get? t) =
      (m.targetedRule? (rules ss ++ [r]) kind s t).map (·.bits v))
    (subjects : ∀ kind, (m'.targeted kind).keys =
      ((m.pairs kind (rules ss ++ [r])).map Prod.fst).eraseDups)
    (targets : ∀ kind s targets, (m'.targeted kind).get? s = some targets → targets.keys =
      (((m.pairs kind (rules ss ++ [r])).filter (·.1 = s)).map Prod.snd).eraseDups) :
    m'.Means v (ss ++ [.rule r]) := by
  have hrules : rules (ss ++ [.rule r]) = rules ss ++ [r] := rules_concat
  have hnames : requiredNames (ss ++ [.rule r]) = requiredNames ss := by
    rw [requiredNames_concat]
    exact List.append_nil _
  have hdeclared (field : String) : declared? (ss ++ [.rule r]) field = declared? ss field :=
    declared?_concat field
  obtain ⟨hname, hauthor, hversion, htypes⟩ := record_header m r.kind subject target? bits
  rw [← hm'] at hname hauthor hversion htypes
  clear hm'
  obtain ⟨_, _, _, _, allow, deny, allowOn, denyOn⟩ := m'
  cases hname
  cases hauthor
  cases hversion
  cases htypes
  refine ⟨?_, ?_, ?_, ?_, h.ids, fun kind => ?_, ?_, ?_, ?_, ?_⟩
  · rw [hdeclared]
    exact h.name
  · rw [hdeclared]
    exact h.author
  · rw [hdeclared]
    exact h.version
  · rw [hnames]
    exact h.types
  · exact (wildcard_length kind).trans (h.wildcard_length kind)
  · rw [hrules]
    exact wildcard
  · rw [hrules]
    exact targeted
  · rw [hrules]
    exact subjects
  · rw [hrules]
    exact targets

theorem addRule_any (h : m.Means v ss) (hsubject : m.typeId? r.subject.text = some subject)
    (htarget : r.target = .any) :
    Means (Draft.record m r.kind subject none (r.bits v)) v (ss ++ [.rule r]) := by
  have hpair : m.pair? r = none := by rw [pair?, htarget]
  have hpairs (kind : RuleKind) : m.pairs kind (rules ss ++ [r]) = m.pairs kind (rules ss) := by
    rw [pairs_concat, hpair]
    split
    · exact List.append_nil _
    · exact List.append_nil _
  refine h.addRule rfl (fun kind => ?_) (fun kind id => ?_) (fun kind s t => ?_) (fun kind => ?_)
    fun kind s targets => ?_
  · rw [wildcard_record_none]
    split
    · exact List.length_set
    · rfl
  · rw [wildcardRule?_concat, bitsOf, wildcard_record_none, hsubject, htarget]
    have hold := h.wildcard kind id
    by_cases hkind : r.kind = kind
    · rw [if_pos hkind, List.getElem?_set]
      by_cases hid : subject = id
      · subst hid
        have hlt : subject.toNat < (m.wildcard kind).length := by
          rw [h.wildcard_length]
          exact lt_of_typeId? hsubject
        rw [if_pos rfl, if_pos hlt, if_pos ⟨hkind, rfl, rfl⟩]
        rfl
      · rw [if_neg fun h => hid (UInt32.toNat_inj.1 h), if_neg fun h => hid (Option.some.inj h.2.2)]
        exact hold
    · rw [if_neg hkind, if_neg fun h => hkind h.1]
      exact hold
  · rw [targeted_record_none, targetedRule?_concat, hpair, if_neg (fun h => nomatch h.2)]
    exact h.targeted kind s t
  · rw [targeted_record_none, hpairs]
    exact h.subjects kind
  · rw [targeted_record_none, hpairs]
    exact h.targets kind s targets

theorem keys_getD (h : m.Means v ss) (kind : RuleKind) (s : TypeId) :
    (((m.targeted kind).get? s).getD .empty).keys =
      (((m.pairs kind (rules ss)).filter (·.1 = s)).map Prod.snd).eraseDups := by
  cases hs : (m.targeted kind).get? s with
  | some targets => exact h.targets kind s targets hs
  | none =>
    rw [Table.get?_eq_none_iff, h.subjects, List.mem_eraseDups] at hs
    have hnone : (m.pairs kind (rules ss)).filter (·.1 = s) = [] := by
      rw [List.filter_eq_nil_iff]
      rintro p hp hps
      exact hs (of_decide_eq_true hps ▸ List.mem_map_of_mem hp)
    rw [hnone]
    rfl

theorem addRule_type (h : m.Means v ss) (hpair : m.pair? r = some (subject, target)) :
    Means (Draft.record m r.kind subject (some target) (r.bits v)) v (ss ++ [.rule r]) := by
  have htarget : r.target ≠ .any := by
    intro hany
    rw [pair?, hany] at hpair
    cases hpair
  refine h.addRule rfl (fun kind => ?_) (fun kind id => ?_) (fun kind s t => ?_) (fun kind => ?_)
    fun kind s targets => ?_
  · rw [wildcard_record_some]
  · rw [bitsOf, wildcard_record_some, wildcardRule?_concat, if_neg fun h => htarget h.2.1]
    exact h.wildcard kind id
  · rw [targeted_record_some, targetedRule?_concat, hpair]
    have hold := h.targeted kind s t
    by_cases hkind : r.kind = kind
    · rw [if_pos hkind, Table.update, Table.get?_insert]
      by_cases hs : subject = s
      · subst hs
        rw [if_pos rfl, Option.bind_some, Table.get?_insert]
        by_cases ht : target = t
        · subst ht
          rw [if_pos rfl, if_pos ⟨hkind, rfl⟩]
          rfl
        · rw [if_neg ht, if_neg fun h => ht (congrArg Prod.snd (Option.some.inj h.2)), ← hold]
          cases (m.targeted kind).get? subject with
          | none => rfl
          | some targets => rfl
      · rw [if_neg hs, if_neg fun h => hs (congrArg Prod.fst (Option.some.inj h.2))]
        exact hold
    · rw [if_neg hkind, if_neg fun h => hkind h.1]
      exact hold
  · rw [targeted_record_some, pairs_concat, hpair]
    have hold := h.subjects kind
    by_cases hkind : r.kind = kind
    · rw [if_pos hkind, if_pos hkind, Table.update, Table.keys_insert, hold, List.map_append]
      simp only [List.mem_eraseDups]
      exact (eraseDups_concat _ subject).symm
    · rw [if_neg hkind, if_neg hkind, List.append_nil]
      exact hold
  · rw [targeted_record_some, pairs_concat, hpair]
    by_cases hkind : r.kind = kind
    · rw [if_pos hkind, if_pos hkind, Table.update, Table.get?_insert, List.filter_append]
      by_cases hs : subject = s
      · subst hs
        have hkept : [(subject, target)].filter (·.1 = subject) = [(subject, target)] :=
          List.filter_cons_of_pos (decide_eq_true rfl)
        rw [if_pos rfl, Option.toList_some, hkept, List.map_append]
        rintro ⟨⟩
        rw [Table.keys_insert, h.keys_getD]
        simp only [List.mem_eraseDups]
        exact (eraseDups_concat _ target).symm
      · have hdropped : [(subject, target)].filter (·.1 = s) = [] :=
          List.filter_cons_of_neg (by rwa [decide_eq_true_eq])
        rw [if_neg hs, Option.toList_some, hdropped, List.append_nil]
        exact h.targets kind s targets
    · rw [if_neg hkind, if_neg hkind, List.append_nil]
      exact h.targets kind s targets

end PolicyModule.Means

end GuildPolicy
