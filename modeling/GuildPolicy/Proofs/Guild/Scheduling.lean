import GuildPolicy.Proofs.Guild.Frame
import GuildPolicy.Proofs.Guild.Loaded
import GuildPolicy.Proofs.Guild.Rebuild

namespace GuildPolicy

/-- A manager whose merges take their time. A look-up that finds a guild's access vector gone raises
the guild's flag and has the merge done later; the merge lowers the flag when it ends, and until
then other look-ups schedule no second one. The guilds that are due have a merge under way. -/
structure Scheduler where
  manager : Manager
  raised : Uuid → Bool

namespace Scheduler

/-- Nothing is scheduled. -/
def idle (m : Manager) : Scheduler := ⟨m, fun _ => false⟩

/-- Raises the flag of a guild; schedules the merge if it was not raised before, unless there is
nobody to do it. -/
def schedule (q : Scheduler) (detached : Bool) (g : Uuid) : Scheduler :=
  let flagged : Scheduler := { q with raised := Function.update q.raised g true }
  if q.raised g then flagged
  else if detached then { flagged with raised := Function.update flagged.raised g false }
  else { flagged with manager := { q.manager with due := g :: q.manager.due } }

/-- The current access vector of a guild, as `Manager.current` gives it. -/
def current (q : Scheduler) (now : Nat) (detached : Bool) (g : Uuid) :
    Option Published × Scheduler :=
  match q.manager.cached now g with
  | (some p, m) => (some p, { q with manager := m })
  | (none, m) =>
    match m.guilds.get? g with
    | none => (none, { q with manager := m })
    | some state =>
      if state.merged.isSome then (none, Scheduler.schedule { q with manager := m } detached g)
      else (none, { q with manager := m })

/-- The merge of a guild comes to its end. -/
def finish (q : Scheduler) (now : Nat) (g : Uuid) : Scheduler where
  manager := Manager.settleGuild now { q.manager with due := q.manager.due.erase g } g
  raised := Function.update q.raised g false

inductive Event
  | ask (now : Nat) (detached : Bool) (g : Uuid)
  | finish (now : Nat) (g : Uuid)

def Event.time : Event → Nat
  | .ask now _ _ | .finish now _ => now

/-- What happens; no merge ends that is not under way. -/
def step (q : Scheduler) : Event → Scheduler
  | .ask now detached g => (q.current now detached g).2
  | .finish now g => if g ∈ q.manager.due then q.finish now g else q

def after (q : Scheduler) (events : List Event) : Scheduler := events.foldl step q

/-- All merges that are under way come to their end. -/
def settle (q : Scheduler) (now : Nat) : Scheduler :=
  q.after (q.manager.due.map (.finish now))

end Scheduler

/-- Without what the cache has of a guild, if it has anything. -/
def Manager.forget (m : Manager) (g : Uuid) : Manager :=
  { m with cache := (m.cache.remove g).2 }

theorem IdleCache.get_of_get_eq_none {κ ν : Type} [DecidableEq κ] {c : IdleCache κ ν} {now : Nat}
    {k : κ} (h : (c.get now k).1 = none) : c.get now k = (none, (c.remove k).2) := by
  cases hs : c.slots.get? k with
  | none =>
    have hk : k ∉ c.slots.keys := Table.get?_eq_none_iff.1 hs
    have hsame : (c.remove k).2 = c := by
      rw [remove, Table.erase_of_notMem hk]
    rw [hsame, get, hs]
  | some s =>
    rw [get, hs] at h ⊢
    dsimp only at h ⊢
    split at h
    · next hexpired =>
      rw [if_pos hexpired]
      rfl
    · cases h

namespace Manager

variable {m m' : Manager} {now now' : Nat} {g h : Uuid} {modules ms : ModuleSet}
variable {v : AccessVector} {files : Files} {L L' : Ledger}

theorem Lost.cached_eq (hlost : m.Lost now g) : m.cached now g = (none, m.forget g) := by
  have hget := IdleCache.get_of_get_eq_none (c := m.cache) hlost
  rw [Manager.cached, hget]
  rfl

theorem held_forget (m : Manager) (g : Uuid) : (m.forget g).held g = none :=
  IdleCache.peek_remove_self (c := m.cache)

theorem forget_forget (m : Manager) (g : Uuid) : (m.forget g).forget g = m.forget g := by
  have hslots := m.cache.slots.erase_erase g
  have hcache : ((m.cache.remove g).2.remove g).2 = (m.cache.remove g).2 :=
    congrArg (IdleCache.mk m.cache.capacity m.cache.lifetime) hslots
  rw [forget, forget, hcache]

theorem Lost.of_keeps (hlost : m.Lost now g) (hkeeps : m.cache.Keeps m'.cache g)
    (hlifetime : m'.cache.lifetime = m.cache.lifetime) (hle : now ≤ now') : m'.Lost now' g := by
  rcases hkeeps.get hlifetime hle with heq | ⟨hnone, -⟩
  · exact heq.trans hlost
  · exact hnone

/-- Nothing that happens to other guilds brings a lost access vector back. -/
theorem Lost.of_moves (hlost : m.Lost now g) (hm : MovesOf files h (m, L) (m', L')) (hne : g ≠ h)
    (hle : now ≤ now') : m'.Lost now' g :=
  hlost.of_keeps (hm.beside.keeps hne) hm.moves.lifetime hle

theorem Lost.later (hlost : m.Lost now g) (hle : now ≤ now') : m.Lost now' g :=
  hlost.of_keeps (.inl rfl) rfl hle

theorem slot_publish (m : Manager) (now : Nat) (g : Uuid) (v : AccessVector) :
    (m.publish now g v).cache.slots.get? g = some ⟨⟨m.nextSerial, v⟩, now⟩ :=
  Table.get?_insert_self ..

section Settle

variable (hlost : m.Lost now g) (hs : m.guilds.get? g = some ⟨modules, some ms⟩)

include hlost hs

theorem Lost.settleGuild_ok (hb : ms.build = .ok v) :
    settleGuild now m g = (m.forget g).publish now g v := by
  rw [settleGuild, hs]
  dsimp only
  rw [Manager.rebuild, hlost.cached_eq]
  dsimp only
  rw [hb]

theorem Lost.settleGuild_error {e : PolicyError} (hb : ms.build = .error e) :
    settleGuild now m g = m.forget g := by
  rw [settleGuild, hs]
  dsimp only
  rw [Manager.rebuild, hlost.cached_eq]
  dsimp only
  rw [hb]

end Settle

theorem settle_single (hdue : m.due = []) (now : Nat) (g : Uuid) :
    settle { m with due := [g] } now = settleGuild now m g := by
  cases m
  cases hdue
  rfl

theorem guilds_settleGuild : (settleGuild now m g).guilds = m.guilds := by
  rw [settleGuild]
  cases m.guilds.get? g with
  | none => rfl
  | some state => exact rebuild_guilds

end Manager

namespace Scheduler

variable {q : Scheduler} {now now' : Nat} {detached : Bool} {g h : Uuid} {e : Event}
variable {events : List Event} {modules ms : ModuleSet}

theorem schedule_detached (q : Scheduler) (g : Uuid) : q.schedule true g = q := by
  rw [schedule]
  dsimp only
  cases hr : q.raised g with
  | true =>
    have hsame : Function.update q.raised g true = q.raised := by
      rw [← hr, Function.update_eq_self]
    rw [if_pos rfl, hsame]
  | false =>
    have hsame : Function.update (Function.update q.raised g true) g false = q.raised := by
      rw [Function.update_idem, ← hr, Function.update_eq_self]
    rw [if_neg Bool.false_ne_true, if_pos rfl, hsame]

theorem schedule_of_raised (hr : q.raised g = true) : q.schedule detached g = q := by
  have hsame : Function.update q.raised g true = q.raised := by
    rw [← hr, Function.update_eq_self]
  rw [schedule]
  dsimp only
  rw [if_pos hr, hsame]

theorem schedule_attached (hr : q.raised g = false) : q.schedule false g =
    ⟨{ q.manager with due := g :: q.manager.due }, Function.update q.raised g true⟩ := by
  rw [schedule]
  dsimp only
  rw [hr, if_neg Bool.false_ne_true, if_neg Bool.false_ne_true]

theorem raised_schedule (q : Scheduler) (g : Uuid) : (q.schedule false g).raised g = true := by
  cases hr : q.raised g with
  | true => rwa [schedule_of_raised hr]
  | false =>
    rw [schedule_attached hr]
    exact Function.update_self g true q.raised

theorem raised_schedule_of_ne (hne : h ≠ g) : (q.schedule detached g).raised h = q.raised h := by
  cases hr : q.raised g with
  | true => rw [schedule_of_raised hr]
  | false =>
    cases detached with
    | true => rw [schedule_detached]
    | false =>
      rw [schedule_attached hr]
      exact Function.update_of_ne hne true q.raised

theorem exists_manager_schedule (q : Scheduler) (detached : Bool) (g : Uuid) :
    ∃ due, (q.schedule detached g).manager = { q.manager with due := due } := by
  cases hr : q.raised g with
  | true => exact ⟨q.manager.due, by rw [schedule_of_raised hr]⟩
  | false =>
    cases detached with
    | true => exact ⟨q.manager.due, by rw [schedule_detached]⟩
    | false => exact ⟨g :: q.manager.due, by rw [schedule_attached hr]⟩

theorem current_cases (q : Scheduler) (now : Nat) (detached : Bool) (g : Uuid) :
    (q.current now detached g).1 = (q.manager.cached now g).1 ∧
    ((q.current now detached g).2 = { q with manager := (q.manager.cached now g).2 } ∨
      (q.current now detached g).2 =
        Scheduler.schedule { q with manager := (q.manager.cached now g).2 } detached g) := by
  rw [current]
  split
  · next hc => exact ⟨congrArg Prod.fst hc.symm, .inl (by rw [hc])⟩
  · next hc =>
    have hfound := congrArg Prod.fst hc.symm
    split
    · exact ⟨hfound, .inl (by rw [hc])⟩
    · split
      · exact ⟨hfound, .inr (by rw [hc])⟩
      · exact ⟨hfound, .inl (by rw [hc])⟩

/-- Exactly the guilds whose merges are under way have their flags raised, and none is merged
twice at a time. -/
structure Sound (q : Scheduler) : Prop where
  raised : ∀ h, q.raised h = true ↔ h ∈ q.manager.due
  nodup : q.manager.due.Nodup

theorem sound_idle {m : Manager} (hdue : m.due = []) : (idle m).Sound where
  raised h := by
    change false = true ↔ h ∈ m.due
    rw [hdue]
    exact ⟨nofun, nofun⟩
  nodup := hdue.symm ▸ List.nodup_nil

theorem Sound.schedule (hq : q.Sound) (detached : Bool) (g : Uuid) :
    (q.schedule detached g).Sound := by
  cases hr : q.raised g with
  | true => rwa [schedule_of_raised hr]
  | false =>
    cases detached with
    | true => rwa [schedule_detached]
    | false =>
      rw [schedule_attached hr]
      have hg : g ∉ q.manager.due := fun hmem => by
        rw [(hq.raised g).2 hmem] at hr
        cases hr
      refine ⟨fun h => ?_, List.nodup_cons.2 ⟨hg, hq.nodup⟩⟩
      change Function.update q.raised g true h = true ↔ h ∈ g :: q.manager.due
      rw [Function.update_apply, List.mem_cons]
      split
      · next heq => exact ⟨fun _ => .inl heq, fun _ => rfl⟩
      · next hne => exact (hq.raised h).trans (or_iff_right hne).symm

theorem Sound.current (hq : q.Sound) (now : Nat) (detached : Bool) (g : Uuid) :
    (q.current now detached g).2.Sound := by
  have hread : Sound { q with manager := (q.manager.cached now g).2 } := ⟨hq.raised, hq.nodup⟩
  rcases (q.current_cases now detached g).2 with heq | heq
  · rwa [heq]
  · rw [heq]
    exact hread.schedule detached g

theorem raised_finish (q : Scheduler) (now : Nat) (g : Uuid) :
    (q.finish now g).raised = Function.update q.raised g false := rfl

theorem due_finish (q : Scheduler) (now : Nat) (g : Uuid) :
    (q.finish now g).manager.due = q.manager.due.erase g :=
  Manager.settleGuild_due

theorem Sound.finish (hq : q.Sound) (now : Nat) (g : Uuid) : (q.finish now g).Sound where
  raised h := by
    rw [due_finish, hq.nodup.mem_erase_iff, raised_finish, Function.update_apply]
    split
    · next heq => exact ⟨nofun, fun hne => absurd heq hne.1⟩
    · next hne => exact (hq.raised h).trans (and_iff_right hne).symm
  nodup := by
    rw [due_finish]
    exact hq.nodup.erase g

theorem Sound.step (hq : q.Sound) (e : Event) : (q.step e).Sound := by
  cases e with
  | ask now detached g => exact hq.current now detached g
  | finish now g =>
    rw [Scheduler.step]
    split
    · exact hq.finish now g
    · exact hq

theorem Sound.after (hq : q.Sound) (events : List Event) : (q.after events).Sound := by
  induction events generalizing q with
  | nil => exact hq
  | cons e events ih => exact ih (hq.step e)

theorem settle_idle {m : Manager} (hdue : m.due = []) (now : Nat) :
    (idle m).settle now = idle m := by
  change (idle m).after (m.due.map _) = idle m
  rw [hdue]
  rfl

theorem settle_schedule {m : Manager} (hdue : m.due = []) (now : Nat) (g : Uuid) :
    ((idle m).schedule false g).settle now =
      idle (Manager.settle { m with due := g :: m.due } now) := by
  have hlowered : Function.update (Function.update (idle m).raised g true) g false =
      fun _ => false := by
    rw [Function.update_idem]
    exact Function.update_eq_self g fun _ => false
  cases m
  cases hdue
  rw [schedule_attached rfl, settle]
  change (if g ∈ [g] then _ else _ : Scheduler) = _
  rw [if_pos (List.mem_singleton_self g), finish, hlowered]
  dsimp only
  rw [List.erase_cons_head]
  rfl

/-- From rest, a look-up followed by the end of what it scheduled does what a manager does without
flags, and comes to rest again. -/
theorem idle_current {m : Manager} (hdue : m.due = []) (now : Nat) (detached : Bool) (g : Uuid) :
    ((idle m).current now detached g).1 = (m.current now detached g).1 ∧
    ((idle m).current now detached g).2.settle now =
      idle ((m.current now detached g).2.settle now) := by
  refine ⟨((idle m).current_cases now detached g).1.trans Manager.current_fst.symm, ?_⟩
  have hrest (m' : Manager) (hdue' : m'.due = []) :
      (idle m').settle now = idle (m'.settle now) := by
    rw [Manager.settle_of_idle hdue', settle_idle hdue']
  have hread : ((m.cached now g).2).due = [] := hdue
  cases hc : m.cached now g with
  | mk found m₁ =>
    have hc' : (idle m).manager.cached now g = (found, m₁) := hc
    rw [hc] at hread
    rw [current, Manager.current, hc', hc]
    cases found with
    | some p => exact hrest m₁ hread
    | none =>
      dsimp only
      cases m₁.guilds.get? g with
      | none => exact hrest m₁ hread
      | some state =>
        dsimp only
        cases state.merged.isSome with
        | false => exact hrest m₁ hread
        | true =>
          cases detached with
          | true =>
            rw [if_pos rfl, schedule_detached]
            exact hrest m₁ hread
          | false => exact settle_schedule hread now g

/-- A guild's access vector is lost at some time, with the guilds that are resident. -/
structure Awaits (q : Scheduler) (now : Nat) (g : Uuid) (guilds : Table Uuid GuildState) :
    Prop where
  guilds : q.manager.guilds = guilds
  lost : q.manager.Lost now g

variable {guilds : Table Uuid GuildState}

theorem Awaits.schedule (hq : q.Awaits now g guilds) (detached : Bool) (h : Uuid) :
    (q.schedule detached h).Awaits now g guilds := by
  obtain ⟨due, hmanager⟩ := q.exists_manager_schedule detached h
  refine ⟨?_, ?_⟩
  · rw [hmanager]
    exact hq.guilds
  · rw [hmanager]
    exact hq.lost

theorem Awaits.forget (hq : q.Awaits now g guilds) :
    Awaits { q with manager := q.manager.forget g } now g guilds :=
  ⟨hq.guilds, Manager.lost_of_held (q.manager.held_forget g)⟩

theorem Awaits.current (hq : q.Awaits now g guilds)
    (hs : guilds.get? g = some ⟨modules, some ms⟩) (hle : now ≤ now') (detached : Bool) :
    q.current now' detached g =
      (none, Scheduler.schedule { q with manager := q.manager.forget g } detached g) := by
  have hs' : (q.manager.forget g).guilds.get? g = some ⟨modules, some ms⟩ := hq.guilds ▸ hs
  rw [Scheduler.current, (hq.lost.later hle).cached_eq]
  dsimp only
  rw [hs']
  rfl

theorem Awaits.of_moves {m : Manager} {raised : Uuid → Bool} (hq : q.Awaits now g guilds)
    (hm : MovesOf .empty h (q.manager, .blank) (m, .blank)) (hguilds : m.guilds = guilds)
    (hne : g ≠ h) : Awaits ⟨m, raised⟩ now g guilds :=
  ⟨hguilds, hq.lost.of_moves hm hne (Nat.le_refl now)⟩

/-- A lost access vector stays lost until its merge ends; and its merge gets under way by an
attached look-up, whatever other look-ups there are and whatever merges of other guilds end. -/
theorem Awaits.step (hq : q.Awaits now g guilds) (hs : guilds.get? g = some ⟨modules, some ms⟩)
    (hle : now ≤ e.time) (hg : ∀ t, e ≠ .finish t g) :
    (q.step e).Awaits now g guilds ∧
    ((q.step e).raised g = true ↔ q.raised g = true ∨ ∃ t, e = .ask t false g) := by
  cases e with
  | ask t detached h =>
    by_cases hh : h = g
    · subst hh
      have hle' : now ≤ t := hle
      rw [Scheduler.step, hq.current hs hle']
      refine ⟨hq.forget.schedule detached h, ?_⟩
      cases detached with
      | true =>
        rw [schedule_detached]
        refine (or_iff_left ?_).symm
        rintro ⟨_, ⟨⟩⟩
      | false => exact ⟨fun _ => .inr ⟨t, rfl⟩, fun _ => raised_schedule ..⟩
    · have hread : Awaits { q with manager := (q.manager.cached t h).2 } now g guilds :=
        hq.of_moves (q.manager.cached_moves .blank t .empty h) hq.guilds (Ne.symm hh)
      have hother : ¬∃ t', Event.ask t detached h = .ask t' false g := by
        rintro ⟨_, ⟨⟩⟩
        exact hh rfl
      rw [or_iff_left hother, Scheduler.step]
      rcases (q.current_cases t detached h).2 with heq | heq
      · rw [heq]
        exact ⟨hread, Iff.rfl⟩
      · rw [heq, raised_schedule_of_ne (Ne.symm hh)]
        exact ⟨hread.schedule detached h, Iff.rfl⟩
  | finish t h =>
    have hh : g ≠ h := by
      rintro rfl
      exact hg t rfl
    have hother : ¬∃ t', Event.finish t h = .ask t' false g := nofun
    rw [or_iff_left hother, Scheduler.step]
    split
    · have hmoves : MovesOf .empty h (q.manager, .blank) ((q.finish t h).manager, .blank) :=
        .head (.schedule .blank fun _ hmem => .inr (List.mem_of_mem_erase hmem))
          (Manager.settleGuild_moves _ .blank t .empty h)
      have hguilds : (q.finish t h).manager.guilds = guilds :=
        Manager.guilds_settleGuild.trans hq.guilds
      refine ⟨hq.of_moves hmoves hguilds hh, ?_⟩
      rw [raised_finish, Function.update_of_ne hh]
    · exact ⟨hq, Iff.rfl⟩

theorem Awaits.after (hq : q.Awaits now g guilds) (hs : guilds.get? g = some ⟨modules, some ms⟩)
    (hevents : ∀ e ∈ events, now ≤ e.time ∧ ∀ t, e ≠ .finish t g) :
    (q.after events).Awaits now g guilds ∧
    ((q.after events).raised g = true ↔ q.raised g = true ∨ ∃ t, .ask t false g ∈ events) := by
  induction events generalizing q with
  | nil =>
    refine ⟨hq, (or_iff_left ?_).symm⟩
    rintro ⟨_, hmem⟩
    cases hmem
  | cons e events ih =>
    obtain ⟨⟨hle, hg⟩, hevents⟩ := List.forall_mem_cons.1 hevents
    obtain ⟨hstep, hraised⟩ := hq.step hs hle hg
    obtain ⟨hafter, hraised'⟩ := ih hstep hevents
    refine ⟨hafter, hraised'.trans ?_⟩
    rw [hraised, or_assoc]
    simp only [List.mem_cons, exists_or, eq_comm]

/-- A guild that was merged from the modules `ms` and lost waits for its merge: look-ups are
refused; a detached one drops what the cache had left and no more, and after one that is not
detached the merge is under way. Its end lowers the flag, leaves what is resident as it is, and
brings back what the modules merge into; nothing, if they disagree. -/
structure Heals (q : Scheduler) (since : Nat) (g : Uuid) (ms : ModuleSet) : Prop where
  refused : ∀ now, since ≤ now → ∀ detached, (q.current now detached g).1 = none
  detached : ∀ now, since ≤ now →
    (q.current now true g).2 = { q with manager := q.manager.forget g }
  attached : ∀ now, since ≤ now → g ∈ (q.current now false g).2.manager.due
  sound : ∀ now, (q.finish now g).Sound
  lowered : ∀ now, (q.finish now g).raised g = false
  resident : ∀ now, (q.finish now g).manager.guilds = q.manager.guilds
  healed : ∀ now, since ≤ now → ∀ v, ms.build = .ok v →
    (q.finish now g).manager.cache.slots.get? g = some ⟨⟨q.manager.nextSerial, v⟩, now⟩
  barren : ∀ now, since ≤ now → ∀ e, ms.build = .error e →
    (q.finish now g).manager = { q.manager.forget g with due := q.manager.due.erase g }

theorem Awaits.heals (hq : q.Awaits now g guilds) (hsound : q.Sound)
    (hs : guilds.get? g = some ⟨modules, some ms⟩) : q.Heals now g ms := by
  have hlost (now' : Nat) (hle : now ≤ now') :
      Manager.Lost { q.manager with due := q.manager.due.erase g } now' g := hq.lost.later hle
  have hs' : Table.get? { q.manager with due := q.manager.due.erase g }.guilds g =
    some ⟨modules, some ms⟩ := hq.guilds ▸ hs
  refine
    { refused := fun now' hle detached => congrArg Prod.fst (hq.current hs hle detached)
      detached := fun now' hle => ?_
      attached := fun now' hle => ((hsound.current now' false g).raised g).1 ?_
      sound := fun now' => hsound.finish now' g
      lowered := fun now' => ?_
      resident := fun now' => Manager.guilds_settleGuild
      healed := fun now' hle v hb => ?_
      barren := fun now' hle e hb => (hlost now' hle).settleGuild_error hs' hb }
  · rw [hq.current hs hle true, schedule_detached]
  · rw [hq.current hs hle false]
    exact raised_schedule ..
  · rw [raised_finish, Function.update_self]
  · rw [Scheduler.finish, (hlost now' hle).settleGuild_ok hs' hb]
    exact Manager.slot_publish ..

end Scheduler

end GuildPolicy
