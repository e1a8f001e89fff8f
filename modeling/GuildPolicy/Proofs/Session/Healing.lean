import GuildPolicy.Proofs.Guild.Scheduling
import GuildPolicy.Proofs.Session.Isolation
import GuildPolicy.Proofs.Session.Rebuild

namespace GuildPolicy

theorem Resolver.resolve_eq_of_none {r : Resolver} {m : Manager} {labels : Labels} {now : Nat}
    {detached : Bool} {q : Question} (h : (m.current now detached q.guild).1 = none) :
    r.resolve m labels now detached q = (.empty, r, (m.current now detached q.guild).2) := by
  rw [resolve]
  split
  · next hc => rw [hc]
  · next hc =>
    rw [hc] at h
    cases h

/-- Look-ups, and time that passes. -/
def Step.Looks : Step → Prop
  | .lookup _ _ | .sleep _ => True
  | _ => False

/-- Look-ups without anyone to merge for them, and time that passes. -/
def Step.LooksDetached : Step → Prop
  | .lookup _ detached => detached = true
  | .sleep _ => True
  | _ => False

namespace Session

/-- The session after a look-up that found nothing of a guild. -/
def passed (s : Session) (g : Uuid) : Session :=
  { s with manager := s.manager.forget g, clock := s.clock + tick }

variable {s : Session} {g : Uuid} {modules ms : ModuleSet} {v : AccessVector} {l : Lookup}
variable {detached : Bool} {guilds : Table Uuid GuildState}

theorem lookup_eq_of_none (hl : l.asks? = some g)
    (hnone : (s.manager.current s.clock detached g).1 = none) :
    s.lookup detached l =
      (l.refusal, { s with manager := (s.manager.current s.clock detached g).2 }) := by
  have hpolicy {q : Question} (hq : q.guild = g) : s.policy detached q =
      (.empty, { s with manager := (s.manager.current s.clock detached g).2 }) := by
    subst hq
    rw [policy, Resolver.resolve_eq_of_none hnone]
  refine Prod.ext (lookup_refused hl hnone) ?_
  cases l with
  | current h =>
    cases hl
    rfl
  | permissions h subject =>
    cases hl
    simp only [lookup, Manager.permissionsOf_eq]
  | permissionsOn h subject target | denialsOn h subject target =>
    cases hl
    simp only [lookup, Manager.permissionsOn, Manager.denialsOn, Manager.pairOf_eq]
  | policy q | effective q native =>
    cases hl
    simp only [lookup, hpolicy rfl]
  | holds q native required =>
    rw [Lookup.asks?] at hl
    split at hl
    · cases hl
    · next hrequired =>
      cases hl
      simp only [lookup, if_neg hrequired, hpolicy rfl]

/-- Between steps, a guild's access vector is lost. -/
structure Bereft (s : Session) (g : Uuid) (guilds : Table Uuid GuildState) : Prop where
  due : s.manager.due = []
  guilds : s.manager.guilds = guilds
  lost : s.manager.Lost s.clock g

theorem Bereft.sleep (h : s.Bereft g guilds) (pause : Nat) :
    (s.step (.sleep pause)).2.Bereft g guilds := by
  have hstep : (s.step (.sleep pause)).2 = { s with clock := s.clock + pause + tick } :=
    congrArg (fun m => { s with manager := m, clock := s.clock + pause + tick })
      (Manager.settle_of_idle h.due)
  rw [hstep]
  exact ⟨h.due, h.guilds, h.lost.later (by dsimp only; omega)⟩

section Bereft

variable (h : s.Bereft g guilds) (hs : guilds.get? g = some ⟨modules, some ms⟩)

include h hs

theorem Bereft.lookup (hl : l.asks? = some g) (detached : Bool) :
    s.lookup detached l = (l.refusal, { s with manager :=
      { s.manager.forget g with due := if detached then [] else [g] } }) := by
  have hs' : (s.manager.forget g).guilds.get? g = some ⟨modules, some ms⟩ := h.guilds ▸ hs
  have hdue : (s.manager.forget g).due = [] := h.due
  have hcurrent : s.manager.current s.clock detached g =
      (none, { s.manager.forget g with due := if detached then [] else [g] }) := by
    rw [Manager.current, h.lost.cached_eq]
    dsimp only
    rw [hs']
    dsimp only
    cases detached with
    | true =>
      rw [if_pos rfl, ← hdue]
      rfl
    | false =>
      rw [hdue]
      rfl
  rw [lookup_eq_of_none hl (congrArg Prod.fst hcurrent), hcurrent]

theorem Bereft.step_lookup (hl : l.asks? = some g) (detached : Bool) :
    s.step (.lookup l detached) = (l.refusal, { s with
      manager := if detached then s.manager.forget g
        else Manager.settleGuild s.clock (s.manager.forget g) g
      clock := s.clock + tick }) := by
  have hdue : (s.manager.forget g).due = [] := h.due
  have hact : s.act (.lookup l detached) = _ := h.lookup hs hl detached
  rw [Session.step, hact]
  dsimp only
  cases detached with
  | true =>
    rw [if_pos rfl, if_pos rfl, Manager.settle_of_idle rfl, ← hdue]
  | false =>
    rw [if_neg Bool.false_ne_true, if_neg Bool.false_ne_true, Manager.settle_single hdue]

/-- A look-up that cannot bring the access vector back changes nothing. -/
theorem Bereft.step_eq (hl : l.asks? = some g)
    (hbarren : detached = true ∨ ∃ e, ms.build = .error e) :
    s.step (.lookup l detached) = (l.refusal, s.passed g) := by
  have hs' : (s.manager.forget g).guilds.get? g = some ⟨modules, some ms⟩ := h.guilds ▸ hs
  have hlost : (s.manager.forget g).Lost s.clock g := Manager.lost_of_held (Manager.held_forget _ g)
  rw [h.step_lookup hs hl detached, passed]
  cases detached with
  | true => rw [if_pos rfl]
  | false =>
    obtain ⟨e, hb⟩ := hbarren.resolve_left Bool.false_ne_true
    rw [if_neg Bool.false_ne_true, hlost.settleGuild_error hs' hb, Manager.forget_forget]

/-- A look-up that is not detached brings back what the modules merge into. -/
theorem Bereft.step_heals (hl : l.asks? = some g) (hb : ms.build = .ok v) :
    s.step (.lookup l false) = (l.refusal,
      { s with manager := (s.manager.forget g).publish s.clock g v, clock := s.clock + tick }) := by
  have hs' : (s.manager.forget g).guilds.get? g = some ⟨modules, some ms⟩ := h.guilds ▸ hs
  have hlost : (s.manager.forget g).Lost s.clock g := Manager.lost_of_held (Manager.held_forget _ g)
  rw [h.step_lookup hs hl false, if_neg Bool.false_ne_true, hlost.settleGuild_ok hs' hb,
    Manager.forget_forget]

/-- Whatever guild is asked for, what is lost stays lost. -/
theorem Bereft.step (hbarren : detached = true ∨ ∃ e, ms.build = .error e) (l : Lookup) :
    (s.step (.lookup l detached)).2.Bereft g guilds := by
  have hguilds : (s.step (.lookup l detached)).2.manager.guilds = guilds := by
    change ((s.lookup detached l).2.manager.settle _).guilds = guilds
    rw [Manager.guilds_settle, lookup_manager, ← h.guilds]
    cases l.asks? with
    | none => rfl
    | some g' => exact Manager.guilds_current
  refine ⟨Manager.settle_due, hguilds, ?_⟩
  by_cases hl : l.asks? = some g
  · rw [h.step_eq hs hl hbarren]
    exact Manager.lost_of_held (Manager.held_forget s.manager g)
  · have hle := s.step_clock_le (.lookup l detached)
    by_cases hg : g = l.guild
    · -- A look-up that names the guild and does not ask for it touches nothing.
      have hnone : l.asks? = none := by
        cases ha : l.asks? with
        | none => rfl
        | some g' =>
          rw [← Lookup.guild_of_asks ha, ← hg] at ha
          exact absurd ha hl
      have hsame : (s.step (.lookup l detached)).2.manager = s.manager := by
        change (s.lookup detached l).2.manager.settle _ = s.manager
        rw [lookup_manager, hnone]
        exact Manager.settle_of_idle h.due
      rw [hsame]
      exact h.lost.later hle
    · have hmoves : MovesOf s.files l.guild (s.manager, .blank)
          ((s.step (.lookup l detached)).2.manager, s.record .blank (.lookup l detached)) :=
        step_moves_of rfl h.due
      exact h.lost.of_moves hmoves hg hle

theorem Bereft.after {steps : List Step}
    (hsteps : ∀ st ∈ steps, st.LooksDetached ∨ st.Looks ∧ ∃ e, ms.build = .error e) :
    (s.after steps).Bereft g guilds := by
  induction steps generalizing s with
  | nil => exact h
  | cons st steps ih =>
    obtain ⟨hst, hsteps⟩ := List.forall_mem_cons.1 hsteps
    refine ih ?_ hsteps
    cases st with
    | lookup l detached => exact h.step hs (hst.imp id And.right) l
    | sleep pause => exact h.sleep pause
    | admin | label | file | invalidateGuild | invalidateEntity | invalidateMember
    | describeResolver | restart => exact (hst.elim id And.left).elim

end Bereft

/-- A look-up of a session is one of a scheduler at rest, with what it scheduled. -/
theorem step_lookup_scheduled (hdue : s.manager.due = []) (hl : l.asks? = some g)
    (detached : Bool) :
    ((Scheduler.idle s.manager).current s.clock detached g).2.settle s.clock =
      .idle (s.step (.lookup l detached)).2.manager := by
  have hmanager : (s.step (.lookup l detached)).2.manager =
      (s.lookup detached l).2.manager.settle (s.lookup detached l).2.clock := rfl
  rw [(Scheduler.idle_current hdue s.clock detached g).2, hmanager, (s.lookup_frame detached l).1,
    lookup_manager, hl]
  rfl

/-- A guild that is resident and was merged, and whose access vector is lost, comes back with the
next look-up that is not detached: the look-up itself is refused, but it makes the guild due, and
then the cache has, newly stamped, what the modules merge into that the guild was merged from. What
is resident of any guild stays as it is. A detached look-up only drops what the cache had left of
the guild, and stands in the way of nothing. If the modules disagree, every look-up does no more
than that.

The same with flags, and with merges that take their time: in whatever order look-ups are made and
merges of other guilds end, the guild's merge is under way, and only once, exactly if one of the
look-ups for it was not detached. -/
theorem lost_heals (config : Config) (steps : List Step) {g : Uuid} {modules ms : ModuleSet}
    (hs : ((make config).after steps).manager.guilds.get? g = some ⟨modules, some ms⟩)
    (hlost : ((make config).after steps).manager.Lost ((make config).after steps).clock g) :
    let s := (make config).after steps
    (∀ l : Lookup, l.asks? = some g → s.step (.lookup l true) = (l.refusal, s.passed g)) ∧
    (∀ v, ms.build = .ok v → ∀ asked : List Step, (∀ st ∈ asked, st.LooksDetached) →
      ∀ l : Lookup, l.asks? = some g →
      let t := s.after asked
      let t' := (t.step (.lookup l false)).2
      (t.step (.lookup l false)).1 = l.refusal ∧
      (t.act (.lookup l false)).2.manager.due = [g] ∧
      t'.manager.cache.slots.get? g = some ⟨⟨t.manager.nextSerial, v⟩, t.clock⟩ ∧
      t'.manager.guilds = s.manager.guilds) ∧
    (∀ e, ms.build = .error e → ∀ asked : List Step, (∀ st ∈ asked, st.Looks) →
      ∀ (l : Lookup) (detached : Bool), l.asks? = some g →
      let t := s.after asked
      t.step (.lookup l detached) = (l.refusal, t.passed g) ∧
      t.manager.guilds = s.manager.guilds) ∧
    (∀ (l : Lookup) (h : Uuid) (detached : Bool), l.asks? = some h →
      ((Scheduler.idle s.manager).current s.clock detached h).2.settle s.clock =
        .idle (s.step (.lookup l detached)).2.manager) ∧
    ∀ events : List Scheduler.Event,
      (∀ e ∈ events, s.clock ≤ e.time ∧ ∀ t, e ≠ .finish t g) →
      let q := (Scheduler.idle s.manager).after events
      q.Sound ∧ q.manager.guilds = s.manager.guilds ∧
      (q.raised g = true ↔ ∃ t, .ask t false g ∈ events) ∧ q.Heals s.clock g ms := by
  intro s
  have hdue : s.manager.due = [] := after_due config steps
  have hbereft : s.Bereft g s.manager.guilds := ⟨hdue, rfl, hlost⟩
  refine ⟨fun l hl => hbereft.step_eq hs hl (.inl rfl), fun v hb asked hasked l hl => ?_,
    fun e hb asked hasked l detached hl => ?_,
    fun l h detached hl => step_lookup_scheduled hdue hl detached, fun events hevents => ?_⟩
  · intro t t'
    have ht : t.Bereft g s.manager.guilds := hbereft.after hs fun st hst => .inl (hasked st hst)
    have hact : t.act (.lookup l false) = _ := ht.lookup hs hl false
    have hstep := ht.step_heals hs hl hb
    refine ⟨congrArg Prod.fst hstep, by rw [hact]; rfl, ?_, ?_⟩
    · rw [show t' = _ from congrArg Prod.snd hstep]
      exact Manager.slot_publish (t.manager.forget g) t.clock g v
    · rw [show t' = _ from congrArg Prod.snd hstep]
      exact ht.guilds
  · intro t
    have ht : t.Bereft g s.manager.guilds :=
      hbereft.after hs fun st hst => .inr ⟨hasked st hst, e, hb⟩
    exact ⟨ht.step_eq hs hl (.inr ⟨e, hb⟩), ht.guilds⟩
  · intro q
    have hidle : (Scheduler.idle s.manager).Awaits s.clock g s.manager.guilds := ⟨rfl, hlost⟩
    obtain ⟨hq, hraised⟩ := hidle.after hs hevents
    have hsound : q.Sound := (Scheduler.sound_idle hdue).after events
    have hiff : q.raised g = true ↔ ∃ t, .ask t false g ∈ events :=
      hraised.trans (or_iff_right nofun)
    exact ⟨hsound, hq.guilds, hiff, hq.heals hsound hs⟩

def loseUsers : List Step := loadPending ++ [.sleep 500]

def askedDetached : List Step :=
  [.lookup (.policy (.member 1 7)) true, .sleep 30, .lookup (.current 1) true]

/-- Two look-ups want the same merge, after one that has nobody to do it. -/
def askedTwice : List Scheduler.Event := [.ask 600 true 1, .ask 601 false 1, .ask 602 false 1]

/-- A module that gives the type 0 another name is stored beside the access vector of users. -/
def loseDisagreeing : List Step :=
  [.admin (.load 1 (.compiled usersModule)), .admin (.compileAll 1),
    .admin (.load 1 (.compiled ⟨"roles", none, 1, ["role"], [2], [0], .empty, .empty⟩)),
    .admin (.storeVector 1 "guild.avc"), .admin (.loadVector 1 "guild.avc"), .sleep 500]

theorem lost_heals_pending :
    (let s := (make shortLived).after loseUsers
      let t := s.after askedDetached
      s.manager.Lost s.clock 1 ∧
      (∃ v, (t.step askUsers).2.manager.cache.slots.get? 1 =
        some ⟨⟨t.manager.nextSerial, v⟩, t.clock⟩ ∧ v.allowed 0 = 1) ∧
      (t.step askUsers).2.manager.guilds = s.manager.guilds ∧
      ((Scheduler.idle s.manager).after askedTwice).raised 1 = true ∧
      ((Scheduler.idle s.manager).after askedTwice).manager.due.Nodup) ∧
    let s := (make shortLived).after loseDisagreeing
    s.manager.Lost s.clock 1 ∧ s.step askUsers = (.bits .empty, s.passed 1) := by
  constructor
  · intro s t
    have hlost : s.manager.Lost s.clock 1 := by decide +kernel
    obtain ⟨modules, ms, hs⟩ : ∃ modules ms,
      s.manager.guilds.get? 1 = some ⟨modules, some ms⟩ := ⟨_, _, rfl⟩
    have hallowed : ((s.manager.guilds.get? 1).bind GuildState.merged).bind
        (fun ms => ms.build.toOption.map (·.allowed 0)) = some 1 := by decide +kernel
    rw [hs] at hallowed
    obtain ⟨v, hb, hv⟩ := Option.map_eq_some_iff.1 hallowed
    obtain ⟨-, hheals, -, -, hevents⟩ := lost_heals shortLived loseUsers hs hlost
    obtain ⟨-, -, hslot, hguilds⟩ := hheals v (toOption_eq_some_iff.1 hb) askedDetached
      (by simp [askedDetached, Step.LooksDetached]) (.permissions 1 (.name "user")) rfl
    have hclock : s.clock ≤ 600 := by decide +kernel
    have htwice : ∀ e ∈ askedTwice, s.clock ≤ e.time ∧ ∀ t, e ≠ .finish t 1 := by
      simp only [askedTwice, List.forall_mem_cons, Scheduler.Event.time]
      exact ⟨⟨hclock, nofun⟩, ⟨by omega, nofun⟩, ⟨by omega, nofun⟩, nofun⟩
    obtain ⟨hsound, -, hraised, -⟩ := hevents askedTwice htwice
    exact ⟨hlost, ⟨v, hslot, hv⟩, hguilds, hraised.2 ⟨601, by simp [askedTwice]⟩, hsound.nodup⟩
  · intro s
    have hlost : s.manager.Lost s.clock 1 := by decide +kernel
    obtain ⟨modules, ms, hs⟩ : ∃ modules ms,
      s.manager.guilds.get? 1 = some ⟨modules, some ms⟩ := ⟨_, _, rfl⟩
    have hfails : ((s.manager.guilds.get? 1).bind GuildState.merged).map
        (·.build.isOk) = some false := by decide +kernel
    rw [hs] at hfails
    obtain ⟨e, hb⟩ := exists_error_of_not_isOk (ne_true_of_eq_false (Option.some.inj hfails))
    obtain ⟨-, -, hbarren, -⟩ := lost_heals shortLived loseDisagreeing hs hlost
    exact ⟨hlost, (hbarren e hb [] nofun (.permissions 1 (.name "user")) false rfl).1⟩

end Session

end GuildPolicy
