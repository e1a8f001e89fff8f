import GuildPolicy.Proofs.Guild.Resolver
import GuildPolicy.Proofs.Permission.Mask
import GuildPolicy.Proofs.Session.Replay

namespace GuildPolicy

/-- What a look-up answers without an access vector. -/
def Lookup.refusal : Lookup → Answer
  | .current _ => .nothing
  | .permissions _ _ | .permissionsOn _ _ _ | .denialsOn _ _ _ | .policy _ | .effective _ _ =>
    .bits .empty
  | .holds _ _ _ => .truth false

/-- Whether a change makes a guild resident that is not. -/
def Change.Enters (kept : Option (List PolicyModule)) : Change → Prop
  | .touch | .unload _ => kept ≠ none
  | .enter | .load _ | .replace _ => True
  | .evict => False

/-- The steps that make a guild resident: those that load, merge or reset it, and those that only
need its modules if a snapshot of it is kept. -/
def Step.Enters (config : Config) (g : Uuid) (files : Files) (st : Step) : Prop :=
  ∃ admin c, st = .admin admin ∧ admin.change? config files = some (g, c) ∧
    c.Enters (config.kept? files g)

/-- The steps that merge the modules of a guild, take its state from a file, or drop it. -/
def Step.Supersedes (g : Uuid) : Step → Prop
  | .admin (.compileAll h) | .admin (.reload h) | .admin (.loadVector h _) | .admin (.loadGuild h)
  | .admin (.evict h) => h = g
  | .restart => True
  | _ => False

namespace Change

variable {kept : Option (List PolicyModule)} {c : Change}

theorem apply_none (h : ¬c.Enters kept) : c.apply kept none = none := by
  cases c with
  | touch => exact not_not.1 h
  | unload name =>
    obtain rfl : kept = none := not_not.1 h
    rfl
  | enter | load | replace => exact absurd trivial h
  | evict => rfl

theorem apply_some_ne_none {ms : List PolicyModule} (h : c ≠ .evict) :
    c.apply kept (some ms) ≠ none := by
  cases c with
  | evict => exact absurd rfl h
  | touch | enter | load | unload | replace => exact Option.some_ne_none _

end Change

theorem effective_empty (native : Mask) : effective native .empty = .empty := BitVec.and_zero

theorem Ledger.Accounts.held_of_unrecorded {L : Ledger} {m : Manager} {g : Uuid}
    (h : L.Accounts m) (hL : L g = none) : m.held g = none := by
  cases hp : m.held g with
  | none => rfl
  | some p =>
    obtain ⟨f, hf, -⟩ := h.held hp
    rw [hL] at hf
    cases hf

/-- What is held is held of a guild that is resident and was merged. -/
theorem Ledger.Accounts.merged_of_held {L : Ledger} {m : Manager} {g : Uuid} {p : Published}
    (h : L.Accounts m) (hp : m.held g = some p) :
    ∃ modules ms, m.guilds.get? g = some ⟨modules, some ms⟩ := by
  obtain ⟨f, hf, -⟩ := h.held hp
  obtain ⟨modules, ms, hs, -⟩ := h.resident hf
  exact ⟨modules, ms, hs⟩

namespace Manager

variable {m : Manager} {now : Nat} {detached : Bool} {g : Uuid}

theorem current_of_held_none (h : m.held g = none) : (m.current now detached g).1 = none := by
  cases hp : (m.current now detached g).1 with
  | none => rfl
  | some p =>
    rw [held_of_current hp] at h
    cases h

theorem guilds_of_loaded_none (h : m.loaded g = none) : m.guilds.get? g = none :=
  Option.map_eq_none_iff.1 h

end Manager

namespace Ledger

variable {L : Ledger} {m : Manager} {files : Files} {g : Uuid} {state : GuildState}

theorem touch_of_resident (hs : m.guilds.get? g = some state) : L.touch m files g = L := by
  rw [touch, hs]

theorem ask_of_resident (now : Nat) (hs : m.guilds.get? g = some state) :
    L.ask m now files g = L := by
  rw [ask, touch_of_resident hs]
  split
  · rfl
  · rfl

theorem load_of_resident (module : PolicyModule) (hs : m.guilds.get? g = some state) :
    L.load m files g module = L := by
  rw [load, touch_of_resident hs]
  split
  · rfl
  · rfl

theorem loadFile_of_resident (path : String) (hs : m.guilds.get? g = some state) :
    L.loadFile m files g path = L := by
  rw [loadFile]
  split
  · exact load_of_resident _ hs
  · rfl

end Ledger

section Changes

variable {config : Config} {files : Files} {g h : Uuid} {c : Change} {st : AdminStep}

theorem of_loadChange? {module : Except PolicyError PolicyModule}
    (hc : loadChange? h module = some (g, c)) : h = g ∧ c ≠ .evict := by
  cases module with
  | error e => cases hc
  | ok m =>
    rw [loadChange?] at hc
    split at hc
    · cases hc
    · cases hc
      exact ⟨rfl, by simp⟩

theorem of_replaceChange? {snapshot : Except PolicyError GuildSnapshot}
    (hc : replaceChange? h snapshot = some (g, c)) : h = g ∧ c ≠ .evict := by
  cases snapshot with
  | error e => cases hc
  | ok snap =>
    cases hc
    exact ⟨rfl, by simp⟩

theorem AdminStep.of_change? (hc : st.change? config files = some (g, c)) :
    st.guild? = some g ∧ (st ≠ .evict g → c ≠ .evict) := by
  cases st with
  | load h input | loadFile h path =>
    obtain ⟨rfl, hne⟩ := of_loadChange? hc
    exact ⟨rfl, fun _ => hne⟩
  | loadVector h path =>
    obtain ⟨rfl, hne⟩ := of_replaceChange? hc
    exact ⟨rfl, fun _ => hne⟩
  | loadGuild h =>
    obtain ⟨path, -, hc⟩ := Option.bind_eq_some_iff.1 hc
    obtain ⟨rfl, hne⟩ := of_replaceChange? hc
    exact ⟨rfl, fun _ => hne⟩
  | evict h =>
    cases hc
    exact ⟨rfl, fun hst => absurd rfl hst⟩
  | unload | modules | vector | compileAll | reload | reset =>
    cases hc
    exact ⟨rfl, fun _ => by simp⟩
  | storeVector | storeGuild | storeModule | compileFile | resident => cases hc

theorem Step.Enters.guild {st : Step} (henters : st.Enters config g files) :
    ∃ admin, st = .admin admin ∧ admin.guild? = some g := by
  obtain ⟨admin, c, rfl, hc, -⟩ := henters
  exact ⟨admin, rfl, (AdminStep.of_change? hc).1⟩

end Changes

namespace Session

section Step

variable {s : Session} {L : Ledger} {g : Uuid}

theorem lookup_refused {l : Lookup} {detached : Bool} (hl : l.asks? = some g)
    (hnone : (s.manager.current s.clock detached g).1 = none) :
    (s.lookup detached l).1 = l.refusal := by
  cases l with
  | current h =>
    cases hl
    exact congrArg (Answer.ofOption fun p : Published => .vector p.vector) hnone
  | permissions h subject =>
    cases hl
    simp only [lookup, Manager.permissionsOf_eq, hnone]
    rfl
  | permissionsOn h subject target | denialsOn h subject target =>
    cases hl
    simp only [lookup, Manager.permissionsOn, Manager.denialsOn, Manager.pairOf_eq, hnone]
    rfl
  | policy q =>
    cases hl
    exact congrArg Answer.bits (Resolver.resolve_of_none hnone)
  | effective q native =>
    cases hl
    have hpolicy : (s.policy detached q).1 = .empty := Resolver.resolve_of_none hnone
    simp only [lookup, hpolicy, effective_empty]
    rfl
  | holds q native required =>
    rw [Lookup.asks?] at hl
    split at hl
    · cases hl
    · next hrequired =>
      cases hl
      have hpolicy : (s.policy detached q).1 = .empty := Resolver.resolve_of_none hnone
      simp only [lookup, if_neg hrequired, hpolicy, effective_empty]
      exact congrArg Answer.truth (Mask.not_has_empty hrequired)

theorem replayStep_none {config : Config} {files : Files} {st : Step}
    (h : ¬st.Enters config g files) : replayStep config g files none st = none := by
  cases st with
  | admin st =>
    rw [replayStep]
    cases hc : st.change? config files with
    | none => rfl
    | some change =>
      obtain ⟨h', c⟩ := change
      rw [replayChange]
      split
      · next heq =>
        subst heq
        exact Change.apply_none fun henters => h ⟨st, c, rfl, hc, henters⟩
      · rfl
  | lookup | label | file | invalidateGuild | invalidateEntity | invalidateMember
  | describeResolver | restart | sleep => rfl

theorem replay_none {config : Config} {history : List (Files × Step)}
    (h : ∀ e ∈ history, ¬e.2.Enters config g e.1) : replay config g none history = none := by
  induction history with
  | nil => rfl
  | cons e history ih =>
    obtain ⟨he, hrest⟩ := List.forall_mem_cons.1 h
    rw [replay, replayStep_none he]
    exact ih hrest

theorem replayStep_ne_none {config : Config} {files : Files} {ms : List PolicyModule} {st : Step}
    (h : ¬st.Supersedes g) : replayStep config g files (some ms) st ≠ none := by
  cases st with
  | admin st =>
    rw [replayStep]
    cases hc : st.change? config files with
    | none => exact Option.some_ne_none _
    | some change =>
      obtain ⟨h', c⟩ := change
      rw [replayChange]
      split
      · next heq =>
        subst heq
        refine Change.apply_some_ne_none ((AdminStep.of_change? hc).2 fun hst => h ?_)
        rw [hst]
        rfl
      · exact Option.some_ne_none _
  | restart => exact absurd trivial h
  | lookup | label | file | invalidateGuild | invalidateEntity | invalidateMember
  | describeResolver | sleep => exact Option.some_ne_none _

/-- Nothing gets in force for a resident guild unless it is merged or replaced. -/
theorem recordAdmin_none {st : AdminStep} {state : GuildState}
    (hs : s.manager.guilds.get? g = some state) (hL : L g = none) (hst : st.guild? = some g)
    (h : ¬(Step.admin st).Supersedes g) : s.recordAdmin L st g = none := by
  cases st with
  | load h' input =>
    cases hst
    rw [recordAdmin]
    cases input.toModule with
    | error e => exact hL
    | ok module => exact (congrFun (Ledger.load_of_resident module hs) g).trans hL
  | loadFile h' path =>
    cases hst
    rw [recordAdmin, Ledger.loadFile_of_resident path hs, hL]
  | unload h' name | modules h' =>
    cases hst
    rw [recordAdmin, Ledger.touch_of_resident hs, hL]
  | vector h' =>
    cases hst
    rw [recordAdmin, Ledger.ask_of_resident s.clock hs, hL]
  | reset h' =>
    cases hst
    exact Ledger.record_self L g none
  | compileAll h' | reload h' | loadVector h' path | loadGuild h' | evict h' =>
    cases hst
    exact absurd rfl h
  | storeVector | storeGuild | storeModule | compileFile | resident => exact hL

theorem record_none {st : Step} {state : GuildState} (hs : s.manager.guilds.get? g = some state)
    (hL : L g = none) (h : ¬st.Supersedes g) : s.record L st g = none := by
  cases st with
  | admin st =>
    change s.recordAdmin L st g = none
    have hm := s.admin_moves L st
    cases hst : st.guild? with
    | none =>
      rw [hst] at hm
      rw [hm.2, hL]
    | some g' =>
      rw [hst] at hm
      by_cases hne : g = g'
      · subst hne
        exact recordAdmin_none hs hL hst h
      · exact (hm.elsewhere hne).2.1.trans hL
  | restart => rfl
  | lookup | label | file | invalidateGuild | invalidateEntity | invalidateMember
  | describeResolver | sleep => exact hL

end Step

section Runs

variable {s : Session} {L : Ledger} {g : Uuid} {steps : List Step}

/-- Nothing is held of a resident guild for which nothing is in force, until it is merged or
replaced. -/
theorem held_none_of_unmerged (hv : s.manager.Valid) (ha : L.Accounts s.manager)
    (hresident : s.manager.loaded g ≠ none) (hL : L g = none)
    (h : ∀ st ∈ steps, ¬st.Supersedes g) : (s.after steps).manager.held g = none := by
  induction steps generalizing s L with
  | nil => exact ha.held_of_unrecorded hL
  | cons st steps ih =>
    obtain ⟨hst, hsteps⟩ := List.forall_mem_cons.1 h
    obtain ⟨ms, hms⟩ := Option.ne_none_iff_exists'.1 hresident
    obtain ⟨state, hs, -⟩ := Option.map_eq_some_iff.1 hms
    have hnext : (s.step st).2.manager.loaded g ≠ none := by
      rw [step_loaded hv ha st g, hms]
      exact replayStep_ne_none hst
    exact ih (step_valid hv) (s.step_accounts L ha) hnext (record_none hs hL hst) hsteps

theorem mem_of_mem_history {e : Files × Step} (he : e ∈ s.history steps) : e.2 ∈ steps := by
  induction steps generalizing s with
  | nil => cases he
  | cons st steps ih =>
    rcases List.mem_cons.1 he with rfl | he
    · exact List.mem_cons_self ..
    · exact List.mem_cons_of_mem _ (ih he)

/-- Nothing is held of a guild that is not resident, until it becomes resident. -/
theorem held_none_of_absent (hv : s.manager.Valid) (ha : L.Accounts s.manager)
    (habsent : s.manager.loaded g = none)
    (h : ∀ e ∈ s.history steps, ¬e.2.Enters s.manager.config g e.1) :
    (s.after steps).manager.held g = none := by
  refine (after_accounts ha steps).held_of_cold (Manager.guilds_of_loaded_none ?_)
  rw [after_loaded rfl hv ha, habsent]
  exact replay_none h

theorem step_refused {l : Lookup} (hl : l.asks? = some g) (hheld : s.manager.held g = none)
    (detached : Bool) : (s.step (.lookup l detached)).1 = l.refusal :=
  lookup_refused hl (Manager.current_of_held_none hheld)

/-- An access vector is held only of a guild that is resident and was merged. So every look-up
about a guild is refused after the guild was evicted, or all was started anew, until a step makes
it resident; and after it was reset, until a step merges or replaces its modules. -/
theorem revoked_refused (config : Config) (before between : List Step) (g : Uuid) :
    let s := (make config).after before
    (∀ h p, s.manager.held h = some p →
      ∃ modules ms, s.manager.guilds.get? h = some ⟨modules, some ms⟩) ∧
    (∀ st, st = .admin (.evict g) ∨ st = .restart →
      (∀ e ∈ (s.step st).2.history between, ¬e.2.Enters config g e.1) →
      ∀ l detached, l.asks? = some g →
        (((make config).after (before ++ st :: between)).step (.lookup l detached)).1 =
          l.refusal) ∧
    ((∀ st ∈ between, ¬st.Supersedes g) →
      ∀ l detached, l.asks? = some g →
        (((make config).after (before ++ .admin (.reset g) :: between)).step
          (.lookup l detached)).1 = l.refusal) := by
  intro s
  have hv : s.manager.Valid := valid config before
  have ha := accounts config before
  refine ⟨fun h p hp => ha.merged_of_held hp, fun st hst hbetween l detached hl => ?_,
    fun hbetween l detached hl => ?_⟩
  · have habsent : (s.step st).2.manager.loaded g = none := by
      rw [step_loaded hv ha st g]
      rcases hst with rfl | rfl
      · exact if_pos rfl
      · rfl
    rw [← after_config config before, ← s.step_config st] at hbetween
    rw [after_append]
    exact step_refused hl
      (held_none_of_absent (step_valid hv) (s.step_accounts _ ha) habsent hbetween) detached
  · have hresident : (s.step (.admin (.reset g))).2.manager.loaded g ≠ none := by
      rw [step_loaded hv ha (.admin (.reset g)) g]
      exact ne_of_eq_of_ne (if_pos rfl) (Option.some_ne_none _)
    have hL : s.record ((make config).inForce .blank before) (.admin (.reset g)) g = none :=
      Ledger.record_self _ g none
    rw [after_append]
    exact step_refused hl
      (held_none_of_unmerged (step_valid hv) (s.step_accounts _ ha) hresident hL hbetween) detached

end Runs

def askMember : Lookup := .policy (.member 1 7)

/-- Members are users when they are asked for, so that the answer is kept; and the guild is
stored. -/
def serveMember : List Step :=
  [.admin (.load 1 (.compiled usersModule)), .admin (.compileAll 1), .admin (.storeGuild 1),
    .label (.setDefault 1 0), .lookup askMember false]

/-- A member is labelled and asked for, and another guild is merged. -/
def serveOthers : List Step :=
  [.label (.assign 1 (.member 7) 0), .admin (.load 2 (.compiled usersModule)),
    .admin (.compileAll 2), .lookup askMember false, .sleep 5]

/-- A module is loaded for the guild, which is asked for and stored but not merged. -/
def loadUnmerged : List Step :=
  [.admin (.load 1 (.compiled extrasModule)), .lookup askMember true, .admin (.vector 1),
    .admin (.storeGuild 1)]

theorem revoked_refused_member :
    (((make keptSnapshots).after serveMember).policy false (.member 1 7)).1 = 1 ∧
    (((make keptSnapshots).after (serveMember ++ .admin (.evict 1) :: serveOthers)).step
      (.lookup askMember false)).1 = .bits .empty ∧
    (((make keptSnapshots).after (serveMember ++ .admin (.reset 1) :: loadUnmerged)).step
      (.lookup askMember false)).1 = .bits .empty := by
  obtain ⟨-, hevict, -⟩ := revoked_refused keptSnapshots serveMember serveOthers 1
  obtain ⟨-, -, hreset⟩ := revoked_refused keptSnapshots serveMember loadUnmerged 1
  have hothers : ∀ st ∈ serveOthers, ∀ admin, st = .admin admin → admin.guild? ≠ some 1 := by
    simp [serveOthers, AdminStep.guild?]
  have hunmerged : ∀ st ∈ loadUnmerged, ¬st.Supersedes 1 := by
    simp [loadUnmerged, Step.Supersedes]
  refine ⟨by decide +kernel, hevict _ (.inl rfl) ?_ askMember false rfl,
    hreset hunmerged askMember false rfl⟩
  intro e he henters
  obtain ⟨admin, hst, hguild⟩ := henters.guild
  exact hothers e.2 (mem_of_mem_history he) admin hst hguild

end Session

end GuildPolicy
