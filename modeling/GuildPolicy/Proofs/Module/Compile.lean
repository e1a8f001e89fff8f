import GuildPolicy.Proofs.Module.Growth
import GuildPolicy.Proofs.Permission.Mask
import GuildPolicy.Proofs.Syntax.Parsed

namespace GuildPolicy

open GuildPolicy.Source GuildPolicy.Syntax

variable {ε α β : Type} {v : Vocabulary} {d : Draft} {ss : List Statement} {s : Statement}

/-- What there is unless there are faults, the first of which counts. -/
def outcome (faults : List ε) (a : α) : Except ε α :=
  match faults with
  | [] => .ok a
  | f :: _ => .error f

/-- One computation after another: the faults of the first come first. -/
theorem outcome_bind {fs gs : List ε} {a : α} {b : β} {f : α → Except ε β}
    (h : fs = [] → f a = outcome gs b) : (outcome fs a >>= f) = outcome (fs ++ gs) b := by
  cases fs with
  | nil => exact h rfl
  | cons => rfl

theorem outcome_map {fs : List ε} {a : α} {f : α → β} :
    (f <$> outcome fs a) = outcome fs (f a) := by
  cases fs with
  | nil => rfl
  | cons => rfl

namespace Draft

theorem stringProperty_eq (block : ModuleBlock) (field : String) :
    stringProperty block field =
      outcome ((block.property? field).toList.flatMap (stringFaults field))
        ((block.property? field).map (·.value.value)) := by
  rw [stringProperty]
  cases block.property? field with
  | none => rfl
  | some p =>
    dsimp only
    rw [Option.toList_some, List.flatMap_singleton, stringFaults]
    split
    · rfl
    · rfl

theorem natBelow?_eq {l : Literal} (h : l.IsPlain) (hkind : l.kind = .integer) :
    Text.natBelow? UInt32.size l.value = l.natural?.filter (· < UInt32.size) := by
  rw [Text.natBelow?, Literal.natural?, if_pos hkind]
  split
  · next cs hcs => exact absurd hcs (h hkind cs)
  · rfl

theorem versionProperty_eq {block : ModuleBlock} (h : ∀ p ∈ block.properties, p.value.IsPlain) :
    versionProperty block =
      outcome ((block.property? "version").toList.flatMap versionFaults)
        ((block.property? "version").map fun p => UInt32.ofNat (p.value.natural?.getD 0)) := by
  rw [versionProperty]
  cases hp : block.property? "version" with
  | none => rfl
  | some p =>
    have hplain := h p (List.mem_reverse.1 (List.mem_of_find?_eq_some hp))
    dsimp only
    rw [Option.toList_some, List.flatMap_singleton, versionFaults]
    by_cases hkind : p.value.kind = .integer
    · rw [if_pos hkind, if_neg (not_not_intro hkind), natBelow?_eq hplain hkind]
      cases hn : p.value.natural? with
      | none => rfl
      | some n =>
        by_cases hlt : n < UInt32.size
        · simp only [Option.filter, Option.any, hlt, decide_true, ↓reduceIte, Option.map_some, hn]
          rfl
        · simp only [Option.filter, Option.any, hlt, decide_false, Bool.false_eq_true, ↓reduceIte]
          rfl
    · rw [if_neg hkind, if_pos hkind]
      rfl

theorem permissions_eq (ps : List Name) : permissions v ps =
    outcome (ps.flatMap (permissionFaults v))
      (.unionAll (ps.filterMap fun p => v.resolve p.text)) := by
  have hfold (start : Mask) : ps.foldlM (addPermission v) start =
      outcome (ps.flatMap (permissionFaults v))
        ((ps.filterMap fun p => v.resolve p.text).foldl .union start) := by
    induction ps generalizing start with
    | nil => rfl
    | cons p ps ih =>
      rw [List.foldlM_cons, addPermission, List.flatMap_cons, List.filterMap_cons, permissionFaults]
      cases hp : v.resolve p.text with
      | none => rfl
      | some flag => exact ih _
  exact hfold .empty

/-- A draft that means what the statements before it mean. -/
structure Holds (v : Vocabulary) (before : List Statement) (d : Draft) : Prop where
  means : d.module.Means v before
  required : d.required = before.any Statement.isRequire
  early : d.required = false → rules before = []

/-- The id that a type's name stands for, if it is known. -/
def idOf (d : Draft) (name : String) : TypeId := (d.module.typeId? name).getD 0

/-- What a draft becomes by a statement without faults. -/
def after (v : Vocabulary) (d : Draft) : Statement → Draft
  | .module block => { d with module := { d.module with
      name := ((block.property? "name").map (·.value.value)).getD d.module.name
      author := ((block.property? "author").map (·.value.value)).or d.module.author
      version := ((block.property? "version").map fun p =>
        UInt32.ofNat (p.value.natural?.getD 0)).getD d.module.version } }
  | .require block =>
    ⟨{ d.module with
      types := (block.types.map Name.text).eraseDups
      allow := List.replicate (block.types.map Name.text).eraseDups.length .empty
      deny := List.replicate (block.types.map Name.text).eraseDups.length .empty }, true⟩
  | .rule r =>
    let target := match r.target with
      | .any => none
      | .type name => some (d.idOf name)
    { d with module := record d.module r.kind (d.idOf r.subject.text) target (r.bits v) }

variable {before : List Statement}

theorem holds_blank : Holds v [] blank where
  means :=
    { name := rfl
      author := rfl
      version := rfl
      types := rfl
      ids := fun _ _ => nofun
      wildcard_length := by
        rintro (_ | _)
        · rfl
        · rfl
      wildcard := by
        rintro (_ | _) id
        · rfl
        · rfl
      targeted := by
        rintro (_ | _) s t
        · rfl
        · rfl
      subjects := by
        rintro (_ | _)
        · rfl
        · rfl
      targets := by
        rintro (_ | _) s
        · exact nofun
        · exact nofun }
  required := rfl
  early _ := rfl

theorem typeId?_eq_none_iff (h : d.Holds v before) {name : String} :
    d.module.typeId? name = none ↔ name ∉ requiredNames before := by
  rw [PolicyModule.typeId?_eq_none_iff, h.means.types, List.mem_eraseDups]

theorem typeId_eq (h : d.Holds v before) (name : Name) :
    d.typeId name = outcome (typeFaults (requiredNames before) name) (d.idOf name.text) := by
  have hnone : d.module.typeId? name.text = none ↔ name.text ∉ requiredNames before :=
    typeId?_eq_none_iff h
  rw [typeId, typeFaults, idOf]
  cases hid : d.module.typeId? name.text with
  | none =>
    rw [if_neg (hnone.1 hid)]
    rfl
  | some id =>
    rw [if_pos]
    · rfl
    · by_contra hmem
      rw [hnone.2 hmem] at hid
      cases hid

theorem targetId_eq (h : d.Holds v before) (r : Rule) :
    d.targetId r = outcome (targetFaults (requiredNames before) r)
      (match r.target with
        | .any => none
        | .type name => some (d.idOf name)) := by
  rw [targetId, targetFaults]
  cases r.target with
  | any => rfl
  | type name =>
    dsimp only
    rw [typeId_eq h, outcome_map]

theorem add_eq (h : d.Holds v before) (hs : s.IsSpelled) :
    add v d s = outcome (statementFaults v before s) (d.after v s) := by
  cases s with
  | module block =>
    rw [add, addModule, stringProperty_eq, stringProperty_eq, versionProperty_eq hs,
      statementFaults, List.append_assoc]
    refine outcome_bind fun _ => ?_
    refine outcome_bind fun _ => ?_
    exact outcome_map
  | require block =>
    rw [add, addRequire, h.required, statementFaults]
    split
    · rfl
    · rfl
  | rule r =>
    rw [add, addRule, typeId_eq h, targetId_eq h, permissions_eq, statementFaults,
      List.append_assoc]
    refine outcome_bind fun _ => ?_
    refine outcome_bind fun _ => ?_
    exact outcome_map

theorem typeId?_of_faults (h : d.Holds v before) {name : Name}
    (hfaults : typeFaults (requiredNames before) name = []) :
    d.module.typeId? name.text = some (d.idOf name.text) := by
  cases hid : d.module.typeId? name.text with
  | some id => rw [idOf, hid, Option.getD_some]
  | none =>
    rw [typeFaults, if_neg ((typeId?_eq_none_iff h).1 hid)] at hfaults
    cases hfaults

theorem requiredNames_eq_nil (h : before.any Statement.isRequire = false) :
    requiredNames before = [] := by
  refine List.flatMap_eq_nil_iff.2 fun s hs => ?_
  cases s with
  | require block => exact absurd (List.any_eq_false.1 h _ hs) (fun hne => hne rfl)
  | module block => rfl
  | rule r => rfl

theorem any_isRequire_concat : (before ++ [s]).any Statement.isRequire =
    (before.any Statement.isRequire || s.isRequire) := by
  rw [List.any_append, List.any_cons, List.any_nil, Bool.or_false]

theorem holds_after (h : d.Holds v before) (hfaults : statementFaults v before s = []) :
    (d.after v s).Holds v (before ++ [s]) := by
  cases s with
  | module block =>
    refine ⟨h.means.addModule block, ?_, fun hd => ?_⟩
    · rw [any_isRequire_concat]
      exact h.required.trans (Bool.or_false _).symm
    · rw [rules_concat, h.early hd]
      rfl
  | require block =>
    rw [statementFaults] at hfaults
    split at hfaults
    · cases hfaults
    · next hfirst =>
      have hfirst := Bool.eq_false_iff.2 hfirst
      have hrules := h.early (h.required.trans hfirst)
      refine ⟨h.means.addRequire (requiredNames_eq_nil hfirst) hrules block, ?_, nofun⟩
      rw [any_isRequire_concat]
      exact (Bool.or_true _).symm
  | rule r =>
    rw [statementFaults, List.append_eq_nil_iff, List.append_eq_nil_iff] at hfaults
    obtain ⟨⟨hsubject, htarget⟩, _⟩ := hfaults
    have hid := typeId?_of_faults h hsubject
    refine ⟨?_, ?_, fun hd => ?_⟩
    · rw [targetFaults] at htarget
      rw [after]
      dsimp only
      split
      · next hany => exact h.means.addRule_any hid hany
      · next name hname =>
        rw [hname] at htarget
        have hid' := typeId?_of_faults h htarget
        refine h.means.addRule_type ?_
        rw [PolicyModule.pair?, hname]
        dsimp only
        rw [hid, hid']
        rfl
    · rw [any_isRequire_concat]
      exact h.required.trans (Bool.or_false _).symm
    · rw [typeFaults, requiredNames_eq_nil (h.required.symm.trans hd)] at hsubject
      cases hsubject

end Draft

theorem stringFaults_eq_nil_iff {field : String} {p? : Option Property} :
    p?.toList.flatMap (stringFaults field) = [] ↔ ∀ p ∈ p?, p.value.kind = .string := by
  rw [List.flatMap_eq_nil_iff]
  refine forall_congr' fun p => ?_
  rw [Option.mem_toList, stringFaults]
  split
  · next h => exact ⟨fun _ _ => h, fun _ _ => rfl⟩
  · next h => exact ⟨fun h' hp => absurd (h' hp) nofun, fun h' hp => absurd (h' hp) h⟩

theorem versionFaults_eq_nil_iff {p? : Option Property} :
    p?.toList.flatMap versionFaults = [] ↔
      ∀ p ∈ p?, ∃ n < UInt32.size, p.value.natural? = some n := by
  rw [List.flatMap_eq_nil_iff]
  refine forall_congr' fun p => ?_
  rw [Option.mem_toList, versionFaults]
  have hany : p.value.natural?.any (· < UInt32.size) = true ↔
      ∃ n < UInt32.size, p.value.natural? = some n := by
    simp only [Option.any_eq_true, decide_eq_true_eq, and_comm]
  split
  · next hkind =>
    have hnone : p.value.natural? = none := by rw [Literal.natural?, if_neg hkind]
    rw [hnone]
    exact ⟨fun h hp => absurd (h hp) nofun, fun h hp => absurd (h hp) nofun⟩
  split
  · next h => exact ⟨fun _ _ => hany.1 h, fun _ _ => rfl⟩
  · next h =>
    exact ⟨fun h' hp => absurd (h' hp) nofun, fun h' hp => absurd (hany.2 (h' hp)) h⟩

theorem typeFaults_eq_nil_iff {known : List String} {name : Name} :
    typeFaults known name = [] ↔ name.text ∈ known := by
  rw [typeFaults]
  split
  · next h => exact ⟨fun _ => h, fun _ => rfl⟩
  · next h => exact ⟨nofun, fun h' => absurd h' h⟩

theorem targetFaults_eq_nil_iff {known : List String} {r : Rule} :
    targetFaults known r = [] ↔ ∀ name, r.target = .type name → name ∈ known := by
  rw [targetFaults]
  cases r.target with
  | any => exact ⟨nofun, fun _ => rfl⟩
  | type name =>
    refine typeFaults_eq_nil_iff.trans ⟨?_, fun h => h name rfl⟩
    rintro h _ ⟨⟩
    exact h

theorem permissionFaults_eq_nil_iff {ps : List Name} :
    ps.flatMap (permissionFaults v) = [] ↔ ∀ p ∈ ps, (v.resolve p.text).isSome := by
  rw [List.flatMap_eq_nil_iff]
  refine forall₂_congr fun p _ => ?_
  rw [permissionFaults]
  split
  · next h => exact ⟨fun _ => h, fun _ => rfl⟩
  · next h => exact ⟨nofun, fun h' => absurd h' h⟩

theorem compilable_nil : Compilable v [] where
  name := nofun
  author := nofun
  version := nofun
  require_once := Nat.zero_le _
  subjects before r hbegins := by
    have hlength := hbegins.length_le
    rw [List.length_append] at hlength
    exact absurd hlength (Nat.not_succ_le_zero _)
  targets before r hbegins := by
    have hlength := hbegins.length_le
    rw [List.length_append] at hlength
    exact absurd hlength (Nat.not_succ_le_zero _)
  permissions := nofun

theorem prefix_concat_iff {before : List Statement} {r : Rule} :
    before ++ [.rule r] <+: ss ++ [s] ↔ before ++ [.rule r] <+: ss ∨ before = ss ∧ .rule r = s := by
  rw [List.prefix_concat_iff, or_comm, List.append_singleton_inj]

theorem declared?_eq_none (h : ss.countP Statement.isModule = 0) (field : String) :
    declared? ss field = none := by
  have hproperties : ss.flatMap Statement.properties = [] := by
    refine List.flatMap_eq_nil_iff.2 fun s hs => ?_
    cases s with
    | module block => exact absurd rfl (List.countP_eq_zero.1 h _ hs)
    | require block => rfl
    | rule r => rfl
  rw [declared?, hproperties]
  rfl

/-- With one module block only, each of its properties is the last one declared. -/
theorem forall_declared?_concat (hcount : (ss ++ [s]).countP Statement.isModule ≤ 1)
    (field : String) (P : Property → Prop) : (∀ p ∈ declared? (ss ++ [s]) field, P p) ↔
      (∀ p ∈ declared? ss field, P p) ∧ ∀ p ∈ s.property? field, P p := by
  rw [declared?_concat, ← Statement.property?]
  rw [List.countP_append, List.countP_singleton] at hcount
  by_cases hs : s.isModule = true
  · rw [if_pos hs] at hcount
    rw [declared?_eq_none (Nat.le_zero.1 (Nat.le_of_succ_le_succ hcount)), Option.or_none]
    exact ⟨fun h => ⟨nofun, h⟩, And.right⟩
  · have hnone : s.property? field = none := by
      cases s with
      | module block => exact absurd rfl hs
      | require block => rfl
      | rule r => rfl
    rw [hnone, Option.none_or]
    exact ⟨fun h => ⟨h, nofun⟩, And.left⟩

theorem require_once_concat : (ss ++ [s]).countP Statement.isRequire ≤ 1 ↔
    ss.countP Statement.isRequire ≤ 1 ∧
      (s.isRequire = true → ss.any Statement.isRequire = false) := by
  rw [List.countP_append, List.countP_singleton]
  have hany : ss.any Statement.isRequire = false ↔ ss.countP Statement.isRequire = 0 := by
    rw [List.any_eq_false, List.countP_eq_zero]
  rw [hany]
  by_cases hs : s.isRequire = true
  · rw [if_pos hs]
    exact ⟨fun h => ⟨by omega, fun _ => by omega⟩, fun h => by rw [h.2 hs]⟩
  · rw [if_neg hs]
    exact ⟨fun h => ⟨h, fun h' => absurd h' hs⟩, And.left⟩

theorem forall_rule_concat (P : List Statement → Rule → Prop) :
    (∀ before r, before ++ [.rule r] <+: ss ++ [s] → P before r) ↔
      (∀ before r, before ++ [.rule r] <+: ss → P before r) ∧ ∀ r, s = .rule r → P ss r := by
  constructor
  · intro h
    refine ⟨fun before r hp => h before r (prefix_concat_iff.2 (.inl hp)), ?_⟩
    rintro r rfl
    exact h ss r (prefix_concat_iff.2 (.inr ⟨rfl, rfl⟩))
  · rintro ⟨hss, hs⟩ before r hp
    rcases prefix_concat_iff.1 hp with hp | ⟨rfl, hr⟩
    · exact hss before r hp
    · exact hs r hr.symm

theorem forall_rules_concat (P : Rule → Prop) :
    (∀ r ∈ rules (ss ++ [s]), P r) ↔ (∀ r ∈ rules ss, P r) ∧ ∀ r, s = .rule r → P r := by
  rw [rules_concat, List.forall_mem_append]
  refine and_congr_right fun _ => forall_congr' fun r => ?_
  rw [Option.mem_toList]
  cases s with
  | rule r' =>
    refine ⟨fun h hr => h ?_, fun h hr => h ?_⟩
    · cases hr
      rfl
    · cases hr
      rfl
  | module block => exact ⟨nofun, nofun⟩
  | require block => exact ⟨nofun, nofun⟩

theorem statementFaults_eq_nil_iff : statementFaults v ss s = [] ↔
    (∀ p ∈ s.property? "name", p.value.kind = .string) ∧
    (∀ p ∈ s.property? "author", p.value.kind = .string) ∧
    (∀ p ∈ s.property? "version", ∃ n < UInt32.size, p.value.natural? = some n) ∧
    (s.isRequire = true → ss.any Statement.isRequire = false) ∧
    (∀ r, s = .rule r → r.subject.text ∈ requiredNames ss) ∧
    (∀ r, s = .rule r → ∀ name, r.target = .type name → name ∈ requiredNames ss) ∧
    ∀ r, s = .rule r → ∀ p ∈ r.permissions, (v.resolve p.text).isSome := by
  cases s with
  | module block =>
    rw [statementFaults, List.append_eq_nil_iff, List.append_eq_nil_iff, stringFaults_eq_nil_iff,
      stringFaults_eq_nil_iff, versionFaults_eq_nil_iff]
    constructor
    · rintro ⟨⟨hname, hauthor⟩, hversion⟩
      exact ⟨hname, hauthor, hversion, nofun, nofun, nofun, nofun⟩
    · rintro ⟨hname, hauthor, hversion, _⟩
      exact ⟨⟨hname, hauthor⟩, hversion⟩
  | require block =>
    rw [statementFaults]
    constructor
    · intro h
      refine ⟨nofun, nofun, nofun, fun _ => ?_, nofun, nofun, nofun⟩
      split at h
      · cases h
      · next hany => exact Bool.eq_false_iff.2 hany
    · rintro ⟨_, _, _, hany, _⟩
      rw [if_neg (Bool.eq_false_iff.1 (hany rfl))]
  | rule r =>
    rw [statementFaults, List.append_eq_nil_iff, List.append_eq_nil_iff, typeFaults_eq_nil_iff,
      targetFaults_eq_nil_iff, permissionFaults_eq_nil_iff]
    constructor
    · rintro ⟨⟨hsubject, htarget⟩, hpermissions⟩
      refine ⟨nofun, nofun, nofun, nofun, ?_, ?_, ?_⟩
      · rintro _ ⟨⟩
        exact hsubject
      · rintro _ ⟨⟩
        exact htarget
      · rintro _ ⟨⟩
        exact hpermissions
    · rintro ⟨_, _, _, _, hsubject, htarget, hpermissions⟩
      exact ⟨⟨hsubject r rfl, htarget r rfl⟩, hpermissions r rfl⟩

/-- Statements make a module if those before the last one do and nothing is wrong with it. -/
theorem compilable_concat_iff (hcount : (ss ++ [s]).countP Statement.isModule ≤ 1) :
    Compilable v (ss ++ [s]) ↔ Compilable v ss ∧ statementFaults v ss s = [] := by
  rw [statementFaults_eq_nil_iff]
  have hdeclared := forall_declared?_concat hcount
  constructor
  · intro h
    obtain ⟨hname, hname'⟩ := (hdeclared _ _).1 h.name
    obtain ⟨hauthor, hauthor'⟩ := (hdeclared _ _).1 h.author
    obtain ⟨hversion, hversion'⟩ := (hdeclared _ _).1 h.version
    obtain ⟨honce, honce'⟩ := require_once_concat.1 h.require_once
    obtain ⟨hsubjects, hsubject⟩ := (forall_rule_concat _).1 h.subjects
    obtain ⟨htargets, htarget⟩ := (forall_rule_concat _).1 h.targets
    obtain ⟨hpermissions, hpermission⟩ := (forall_rules_concat _).1 h.permissions
    exact ⟨⟨hname, hauthor, hversion, honce, hsubjects, htargets, hpermissions⟩, hname', hauthor',
      hversion', honce', hsubject, htarget, hpermission⟩
  · rintro ⟨h, hname, hauthor, hversion, honce, hsubject, htarget, hpermission⟩
    exact
      { name := (hdeclared _ _).2 ⟨h.name, hname⟩
        author := (hdeclared _ _).2 ⟨h.author, hauthor⟩
        version := (hdeclared _ _).2 ⟨h.version, hversion⟩
        require_once := require_once_concat.2 ⟨h.require_once, honce⟩
        subjects := (forall_rule_concat _).2 ⟨h.subjects, hsubject⟩
        targets := (forall_rule_concat _).2 ⟨h.targets, htarget⟩
        permissions := (forall_rules_concat _).2 ⟨h.permissions, hpermission⟩ }

theorem Compilable.of_append {rest : List Statement} (h : Compilable v (ss ++ rest))
    (hcount : (ss ++ rest).countP Statement.isModule ≤ 1) : Compilable v ss := by
  induction rest using List.reverseRecOn with
  | nil => exact List.append_nil ss ▸ h
  | append_singleton rest s ih =>
    rw [← List.append_assoc] at h hcount
    have hle := (List.sublist_append_left (ss ++ rest) [s]).countP_le (p := Statement.isModule)
    exact ih ((compilable_concat_iff hcount).1 h).1 (Nat.le_trans hle hcount)

/-- Statements are added up to the first one at fault. -/
theorem foldlM_add {before : List Statement} (hspelled : ∀ s ∈ ss, s.IsSpelled)
    (hcount : (before ++ ss).countP Statement.isModule ≤ 1) (hd : d.Holds v before)
    (hc : Compilable v before) :
    (Compilable v (before ++ ss) ∧ ∃ d', ss.foldlM (Draft.add v) d = .ok d' ∧
      d'.Holds v (before ++ ss)) ∨
    (¬Compilable v (before ++ ss) ∧ ∃ mid s rest f fs, ss = mid ++ s :: rest ∧
      Compilable v (before ++ mid) ∧ statementFaults v (before ++ mid) s = f :: fs ∧
      ss.foldlM (Draft.add v) d = .error f) := by
  induction ss generalizing before d with
  | nil =>
    rw [List.append_nil]
    exact .inl ⟨hc, d, rfl, hd⟩
  | cons s ss ih =>
    obtain ⟨hs, hspelled⟩ := List.forall_mem_cons.1 hspelled
    have happend : before ++ s :: ss = before ++ [s] ++ ss := by
      rw [List.append_assoc, List.singleton_append]
    have hcount' : (before ++ [s]).countP Statement.isModule ≤ 1 := by
      rw [happend, List.countP_append] at hcount
      exact Nat.le_trans (Nat.le_add_right ..) hcount
    rw [List.foldlM_cons, Draft.add_eq hd hs]
    cases hfaults : statementFaults v before s with
    | nil =>
      have hc' := (compilable_concat_iff hcount').2 ⟨hc, hfaults⟩
      rw [happend] at hcount ⊢
      rcases ih hspelled hcount (Draft.holds_after hd hfaults) hc' with h | h
      · exact .inl h
      · obtain ⟨hnot, mid, s', rest, f, fs, rfl, hmid, hs', hfold⟩ := h
        rw [List.append_assoc, List.singleton_append] at hmid hs'
        exact .inr ⟨hnot, s :: mid, s', rest, f, fs, rfl, hmid, hs', hfold⟩
    | cons f fs =>
      refine .inr ⟨fun h => ?_, [], s, ss, f, fs, rfl, ?_, ?_, rfl⟩
      · rw [happend] at h hcount
        have hnone := ((compilable_concat_iff hcount').1 (h.of_append hcount)).2
        rw [hfaults] at hnone
        cases hnone
      · rwa [List.append_nil]
      · rwa [List.append_nil]

theorem ofPolicy_cases (hp : parse source = .ok p) :
    (Compilable v p.statements ∧ ∃ m, PolicyModule.ofPolicy v p = .ok m ∧
      m.Means v p.statements) ∨
    (¬Compilable v p.statements ∧ ∃ before s rest f faults,
      p.statements = before ++ s :: rest ∧ Compilable v before ∧
      statementFaults v before s = f :: faults ∧ PolicyModule.ofPolicy v p = .error f) := by
  obtain ⟨hcount, hspelled⟩ := isSpelled_of_parse hp
  have hblank : Draft.Holds v [] .blank := Draft.holds_blank
  have hrun := foldlM_add hspelled (List.nil_append p.statements ▸ hcount) hblank compilable_nil
  rw [List.nil_append] at hrun
  rw [PolicyModule.ofPolicy]
  rcases hrun with ⟨hc, d, hd, hholds⟩ | ⟨hnot, before, s, rest, f, faults, hss, hc, hfaults, hf⟩
  · rw [hd]
    exact .inl ⟨hc, d.module, rfl, hholds.means⟩
  · rw [hf]
    exact .inr ⟨hnot, before, s, rest, f, faults, hss, hc, hfaults, rfl⟩

theorem means_of_compile {filename : String} {m : PolicyModule}
    (h : compile v source filename = .ok m) :
    ∃ p, parse source = .ok p ∧ m.Means v p.statements := by
  rw [compile] at h
  split at h
  · cases h
  next p hp =>
  rcases ofPolicy_cases hp with ⟨-, m', hm', hmeans⟩ | ⟨-, _, _, _, f, _, _, _, _, hf⟩
  · rw [hm'] at h
    cases h
    exact ⟨p, hp, hmeans⟩
  · rw [hf] at h
    cases h

/-- A text that is a policy compiles exactly if its statements make a module, to the module that
they describe. Else it fails for the first fault of its first statement at fault. -/
theorem compile_exact (v : Vocabulary) (source filename : String) (p : Policy)
    (hp : parse source = .ok p) :
    ((∃ m, compile v source filename = .ok m) ↔ Compilable v p.statements) ∧
    (∀ m, compile v source filename = .ok m → m.Means v p.statements) ∧
    ∀ e, compile v source filename = .error e → ∃ before s rest f faults,
      p.statements = before ++ s :: rest ∧ Compilable v before ∧
      statementFaults v before s = f :: faults ∧ e = ⟨filename, source, .ofMeaning f⟩ := by
  have hcases := ofPolicy_cases (v := v) hp
  rw [compile, hp]
  dsimp only
  rcases hcases with ⟨hc, m, hm, hmeans⟩ | ⟨hnot, before, s, rest, f, faults, hss, hc, hfaults, hf⟩
  · rw [hm]
    refine ⟨⟨fun _ => hc, fun _ => ⟨m, rfl⟩⟩, ?_, nofun⟩
    rintro _ ⟨⟩
    exact hmeans
  · rw [hf]
    refine ⟨⟨nofun, fun h => absurd h hnot⟩, nofun, ?_⟩
    rintro _ ⟨⟩
    exact ⟨before, s, rest, f, faults, hss, hc, hfaults, rfl⟩

theorem compile_exact_replaced : ∃ p m,
    parse ("require \x7b type a; type b \x7d allow a b \x7b BanMembers \x7d " ++
      "allow a b \x7b KickMembers \x7d") = .ok p ∧
    PolicyModule.Means m .platform p.statements ∧ m.types = ["a", "b"] ∧
    (m.allowOn.get? 0).bind (·.get? 1) = some (BitVec.twoPow 128 1) := by
  have hcompiled : (compile .platform
      ("require \x7b type a; type b \x7d allow a b \x7b BanMembers \x7d " ++
        "allow a b \x7b KickMembers \x7d") "base.policy").toOption.map
      (fun m => (m.types, (m.allowOn.get? 0).bind (·.get? 1))) =
        some (["a", "b"], some (BitVec.twoPow 128 1)) := by decide +kernel
  generalize "require \x7b type a; type b \x7d allow a b \x7b BanMembers \x7d " ++
    "allow a b \x7b KickMembers \x7d" = source at hcompiled ⊢
  cases hm : compile .platform source "base.policy" with
  | error e => rw [hm] at hcompiled; cases hcompiled
  | ok m =>
    rw [hm] at hcompiled
    obtain ⟨htypes, htargets⟩ := Prod.mk.inj (Option.some.inj hcompiled)
    cases hp : parse source with
    | error e => rw [compile, hp] at hm; cases hm
    | ok p =>
      have hmeans := (compile_exact .platform source "base.policy" p hp).2.1 m hm
      exact ⟨p, m, rfl, hmeans, htypes, htargets⟩

end GuildPolicy
