import GuildPolicy.Proofs.Guild.Frame
import GuildPolicy.Proofs.Session.Freshness
import GuildPolicy.Proofs.Session.Revocation

namespace GuildPolicy

def LabelStep.guild : LabelStep → Uuid
  | .assign g _ _ | .unassign g _ | .setDefault g _ | .clear g | .typeOf g _ => g

/-- The guild that a step names, if it names one. -/
def Step.guild? : Step → Option Uuid
  | .admin st => st.guild?
  | .lookup l _ => some l.guild
  | .label l => some l.guild
  | .invalidateGuild g | .invalidateEntity g _ | .invalidateMember g _ => some g
  | .file _ | .describeResolver | .restart | .sleep _ => none

/-- The look-ups that ask the current access vector and nothing else. -/
def Lookup.Direct : Lookup → Prop
  | .current _ | .permissions _ _ | .permissionsOn _ _ _ | .denialsOn _ _ _ => True
  | .policy _ | .effective _ _ | .holds _ _ _ => False

theorem Lookup.asks?_of_direct {l : Lookup} (hl : l.Direct) : l.asks? = some l.guild := by
  cases l with
  | current | permissions | permissionsOn | denialsOn => rfl
  | policy | effective | holds => exact hl.elim

theorem Labels.step_elsewhere (labels : Labels) {l : LabelStep} {h : Uuid} (hne : h ≠ l.guild) :
    (∀ e, (labels.step l).2.assigned.get? (h, e) = labels.assigned.get? (h, e)) ∧
      (labels.step l).2.defaults.get? h = labels.defaults.get? h := by
  have hkey {g : Uuid} (hg : h ≠ g) (e e' : Entity) : (g, e') ≠ (h, e) := fun heq =>
    hg (congrArg Prod.fst heq).symm
  cases l with
  | assign g e' id => exact ⟨fun e => Table.get?_insert_of_ne (hkey hne e e'), rfl⟩
  | unassign g e' =>
    exact ⟨fun e => (Table.get?_erase ..).trans (if_neg (hkey hne e e')), rfl⟩
  | setDefault g id => exact ⟨fun _ => rfl, Table.get?_insert_of_ne hne.symm⟩
  | clear g =>
    refine ⟨fun e => ?_, (Table.get?_erase ..).trans (if_neg hne.symm)⟩
    change (labels.assigned.filter _).get? (h, e) = _
    rw [Table.get?_filter]
    cases labels.assigned.get? (h, e) with
    | none => rfl
    | some id => exact Option.filter_some_pos (decide_eq_true hne)
  | typeOf g e' => exact ⟨fun _ => rfl, rfl⟩

namespace Session

open IdleCache

variable {s t : Session} {L : Ledger} {g h : Uuid} {st : Step} {q : Question} {detached : Bool}

theorem step_clock_le (s : Session) (st : Step) : s.clock ≤ (s.step st).2.clock := by
  have hact : s.clock ≤ (s.act st).2.clock := by
    cases st with
    | admin st => exact Nat.le_of_eq (s.admin_frame st).1.symm
    | lookup l detached => exact Nat.le_of_eq (s.lookup_frame detached l).1.symm
    | sleep ms => exact Nat.le_add_right s.clock ms
    | label | file | invalidateGuild | invalidateEntity | invalidateMember | describeResolver
    | restart => exact Nat.le_refl s.clock
  exact Nat.le_add_right_of_le hact

/-- A step that names a guild, with what it leaves due, is moves about this guild. -/
theorem step_moves_of (hst : st.guild? = some g) (hdue : s.manager.due = []) :
    MovesOf s.files g (s.manager, L) ((s.step st).2.manager, s.record L st) := by
  have hact : MovesOf s.files g (s.manager, L) ((s.act st).2.manager, s.record L st) := by
    cases st with
    | admin st =>
      have hm := s.admin_moves L st
      change st.guild? = some g at hst
      rw [hst] at hm
      exact hm
    | lookup l detached =>
      cases hst
      exact s.lookup_moves L detached l
    | label | invalidateGuild | invalidateEntity | invalidateMember => exact .refl
    | file | describeResolver | restart | sleep => cases hst
  refine hact.trans (Manager.settle_moves_of _ _ _ _ g fun h hh => ?_)
  rcases hact.due hh with heq | hmem
  · exact heq
  · rw [hdue] at hmem
    cases hmem

theorem step_labels_elsewhere (hst : st.guild? = some g) (hne : h ≠ g) :
    (∀ e, (s.step st).2.labels.assigned.get? (h, e) = s.labels.assigned.get? (h, e)) ∧
      (s.step st).2.labels.defaults.get? h = s.labels.defaults.get? h := by
  change (∀ e, (s.act st).2.labels.assigned.get? (h, e) = _) ∧
    (s.act st).2.labels.defaults.get? h = _
  cases st with
  | admin st =>
    have hsame : (s.act (.admin st)).2.labels = s.labels := (s.admin_frame st).2
    rw [hsame]
    exact ⟨fun _ => rfl, rfl⟩
  | lookup l detached =>
    have hsame : (s.act (.lookup l detached)).2.labels = s.labels := (s.lookup_frame detached l).2
    rw [hsame]
    exact ⟨fun _ => rfl, rfl⟩
  | label l =>
    cases hst
    exact s.labels.step_elsewhere hne
  | invalidateGuild | invalidateEntity | invalidateMember => exact ⟨fun _ => rfl, rfl⟩
  | file | describeResolver | restart | sleep => cases hst

theorem policy_keeps {q' : Question} (hne : q ≠ q') :
    s.resolver.cache.Keeps (s.policy detached q').2.resolver.cache q :=
  Resolver.resolve_beside.keeps hne

theorem step_resolver_keeps (hst : st.guild? = some g) (hne : q.guild ≠ g) :
    s.resolver.cache.Keeps (s.step st).2.resolver.cache q := by
  change s.resolver.cache.Keeps (s.act st).2.resolver.cache q
  have hother {q' : Question} (hg : q'.guild = g) : q ≠ q' := by
    rintro rfl
    exact hne hg
  cases st with
  | admin st =>
    cases st with
    | load g' input | storeModule path input =>
      simp only [act, admin]
      split
      · exact .inl rfl
      · exact .inl rfl
    | reload g' =>
      cases hst
      exact Resolver.reload_keeps hne
    | loadFile | unload | modules | compileAll | vector | storeVector | loadVector | storeGuild
    | loadGuild | compileFile | evict | reset | resident => exact .inl rfl
  | lookup l detached =>
    cases l with
    | policy q' | effective q' native =>
      cases hst
      exact policy_keeps (hother rfl)
    | holds q' native required =>
      cases hst
      simp only [act, lookup]
      split
      · exact .inl rfl
      · exact policy_keeps (hother rfl)
    | current | permissions | permissionsOn | denialsOn => exact .inl rfl
  | invalidateGuild g' =>
    cases hst
    exact Resolver.invalidateGuild_keeps hne
  | invalidateEntity g' e =>
    cases hst
    exact Resolver.invalidateEntity_keeps e hne
  | invalidateMember g' member =>
    cases hst
    exact Resolver.invalidateEntity_keeps (.member member) hne
  | label => exact .inl rfl
  | file | describeResolver | restart | sleep => cases hst

theorem lookup_of_direct {l : Lookup} (hl : l.Direct)
    (hc : (s.manager.current s.clock detached l.guild).1 =
      (t.manager.current t.clock detached l.guild).1) :
    (s.lookup detached l).1 = (t.lookup detached l).1 := by
  cases l with
  | current g => exact congrArg (Answer.ofOption fun p : Published => .vector p.vector) hc
  | permissions g subject =>
    have hc' : (s.manager.current s.clock detached g).1 = (t.manager.current t.clock detached g).1 :=
      hc
    simp only [lookup, Manager.permissionsOf_eq, hc']
  | permissionsOn g subject target | denialsOn g subject target =>
    have hc' : (s.manager.current s.clock detached g).1 = (t.manager.current t.clock detached g).1 :=
      hc
    simp only [lookup, Manager.permissionsOn, Manager.denialsOn, Manager.pairOf_eq, hc']
  | policy | effective | holds => exact hl.elim

/-- A step that names one guild leaves what is resident of another one and its labels as they are.
What the caches hold of it stays or is dropped from a full cache; so right after the step its access
vector is answered from as right before, or, if it is lost, look-ups are refused. -/
theorem step_isolated (config : Config) (steps : List Step) {st : Step} {g h : Uuid}
    (hst : st.guild? = some g) (hne : h ≠ g) :
    let s := (make config).after steps
    let s' := (s.step st).2
    s'.manager.guilds.get? h = s.manager.guilds.get? h ∧
    (∀ e, s'.labels.assigned.get? (h, e) = s.labels.assigned.get? (h, e)) ∧
    s'.labels.defaults.get? h = s.labels.defaults.get? h ∧
    s.manager.cache.Keeps s'.manager.cache h ∧
    (∀ q : Question, q.guild = h → s.resolver.cache.Keeps s'.resolver.cache q) ∧
    ∀ (l : Lookup) (detached : Bool), l.Direct → l.guild = h →
      (s'.step (.lookup l detached)).1 = (s.step (.lookup l detached)).1 ∨
        (s'.step (.lookup l detached)).1 = l.refusal ∧
          s.manager.cache.Loses s'.manager.cache s'.clock h := by
  intro s s'
  have hm : MovesOf s.files g (s.manager, .blank) (s'.manager, s.record .blank st) :=
    step_moves_of hst (after_due config steps)
  obtain ⟨hassigned, hdefaults⟩ := step_labels_elsewhere (s := s) hst hne
  have hkeeps : s.manager.cache.Keeps s'.manager.cache h := hm.beside.keeps hne
  refine ⟨(hm.elsewhere hne).1, hassigned, hdefaults, hkeeps, ?_, ?_⟩
  · rintro q rfl
    exact step_resolver_keeps hst hne
  · rintro l detached hl rfl
    rcases Manager.current_of_keeps hkeeps hm.moves.lifetime (s.step_clock_le st) detached with
      hsame | ⟨hnone, hlost⟩
    · exact .inl (lookup_of_direct hl hsame)
    · exact .inr ⟨lookup_refused (Lookup.asks?_of_direct hl) hnone, hlost⟩

def crowded : Config := { Config.default with guildCache := ⟨1, 1000⟩ }

/-- One guild is merged, and another one is about to be. -/
def mergeFirst : List Step :=
  [.admin (.load 1 (.compiled usersModule)), .admin (.compileAll 1),
    .admin (.load 2 (.compiled usersModule))]

/-- In a cache for one guild, merging another one pushes out what the first one had. -/
theorem step_isolated_crowded :
    let s := (make crowded).after mergeFirst
    let s' := (s.step (.admin (.compileAll 2))).2
    s'.manager.guilds.get? 1 = s.manager.guilds.get? 1 ∧
    (s.manager.permissionsOf s.clock false 1 (.name "user")).1 = 1 ∧
    (s'.step (.lookup (.permissions 1 (.name "user")) false)).1 = .bits .empty ∧
    s.manager.cache.Loses s'.manager.cache s'.clock 1 := by
  intro s s'
  have hbefore : (s.manager.permissionsOf s.clock false 1 (.name "user")).1 = 1 := by
    decide +kernel
  have hafter : (s'.manager.permissionsOf s'.clock false 1 (.name "user")).1 = .empty := by
    decide +kernel
  obtain ⟨hstate, -, -, -, -, hanswer⟩ :=
    @step_isolated crowded mergeFirst (.admin (.compileAll 2)) 2 1 rfl (by decide)
  refine ⟨hstate, hbefore, ?_⟩
  rcases hanswer (.permissions 1 (.name "user")) false trivial rfl with hsame | hlost
  · have hbits : (s'.manager.permissionsOf s'.clock false 1 (.name "user")).1 =
        (s.manager.permissionsOf s.clock false 1 (.name "user")).1 := Answer.bits.inj hsame
    rw [hbefore, hafter] at hbits
    exact absurd hbits (by decide)
  · exact hlost

end Session

end GuildPolicy
