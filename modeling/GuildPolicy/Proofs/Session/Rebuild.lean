import GuildPolicy.Proofs.Outcome
import GuildPolicy.Proofs.Session.Run

namespace GuildPolicy

/-- The steps that merge a lost access vector of a guild again. -/
inductive Step.Rebuilds (config : Config) (g : Uuid) : Step → Prop
  | lookup {l : Lookup} (h : l.asks? = some g) : Rebuilds config g (.lookup l false)
  | vector : Rebuilds config g (.admin (.vector g))
  | storeVector (path : String) : Rebuilds config g (.admin (.storeVector g path))
  | storeGuild (h : config.snapshotPath? g ≠ none) : Rebuilds config g (.admin (.storeGuild g))

namespace Session

section Lost

variable {s : Session} {g : Uuid} {state : GuildState} {ms : ModuleSet}

theorem held_of_act_rebuilds {st : Step} {m : Manager} (h : m.Lost s.clock g) (hdue : m.due = [])
    (hm : state.merged = some ms)
    (hact : (s.act st).2.manager = (m.rebuild s.clock g state).2) :
    ((s.step st).2.manager.held g).map Published.vector = ms.build.toOption := by
  have hidle : (s.act st).2.manager.due = [] := by rw [hact, Manager.rebuild_due, hdue]
  have hstep : (s.step st).2.manager = (s.act st).2.manager := Manager.settle_of_idle hidle
  rw [hstep, hact]
  exact (h.rebuild hm).2

theorem lookup_manager_of_lost {l : Lookup} (hl : l.asks? = some g) (hdue : s.manager.due = [])
    (hs : s.manager.guilds.get? g = some state) (hm : state.merged = some ms)
    (h : s.manager.Lost s.clock g) :
    (s.lookup false l).2.manager = { (s.manager.cached s.clock g).2 with due := [g] } := by
  rw [lookup_manager, hl, Option.elim, h.current hs hm, hdue]

/-- A step that merges a lost access vector again leaves in the cache what its modules merge
into. -/
theorem held_of_rebuilds {st : Step} (hst : st.Rebuilds s.manager.config g)
    (hdue : s.manager.due = []) (hs : s.manager.guilds.get? g = some state)
    (hm : state.merged = some ms) (h : s.manager.Lost s.clock g) :
    ((s.step st).2.manager.held g).map Published.vector = ms.build.toOption := by
  have hstore (path : String) : (s.manager.store s.clock s.files g path).2.1 =
      (s.manager.rebuild s.clock g state).2 := by
    rw [Manager.store_eq, Manager.toStore, hs]
  cases hst with
  | @lookup l hl =>
    change (((s.lookup false l).2.manager.settle (s.lookup false l).2.clock).held g).map _ = _
    rw [(s.lookup_frame false l).1, lookup_manager_of_lost hl hdue hs hm h]
    -- The look-up itself finds nothing; what it leaves due merges again.
    have hlost : Manager.Lost { (s.manager.cached s.clock g).2 with due := [g] } s.clock g :=
      Manager.lost_of_held h.held
    exact hlost.settle hs hm rfl
  | vector =>
    have hact : (s.act (.admin (.vector g))).2.manager =
        ((s.manager.cached s.clock g).2.rebuild s.clock g state).2 :=
      congrArg Prod.snd (h.vectorOf hs)
    exact held_of_act_rebuilds h.again hdue hm hact
  | storeVector path => exact held_of_act_rebuilds h hdue hm (hstore path)
  | storeGuild hp =>
    obtain ⟨path, hpath⟩ := Option.ne_none_iff_exists'.1 hp
    have hact : (s.manager.storeGuild s.clock s.files g).2.1 =
        (s.manager.rebuild s.clock g state).2 := by
      rw [Manager.storeGuild, hpath]
      exact hstore path
    exact held_of_act_rebuilds h hdue hm hact

end Lost

variable {config : Config} {steps : List Step} {g : Uuid} {f : InForce}

/-- Merging again is invisible exactly if what is in force is reproducible: then whatever is held,
asked for or written says what is in force, after a loss as before; and a step that merges a lost
access vector again brings back what is in force in this case only. What is written for a guild is
reproducible itself exactly if the loaded modules would merge into what is in force. -/
theorem rebuild_invisible_iff (hf : (make config).inForce .blank steps g = some f) :
    let s := (make config).after steps
    (f.Reproducible →
      (∀ p, s.manager.held g = some p → p.vector.Agree f.vector) ∧
      (s.manager.vectorOf s.clock s.files g).1.Agree f.vector ∧
      (s.manager.toStore s.clock g).1.vector.Agree f.vector ∧
      ((InForce.installed (s.manager.toStore s.clock g).1).Reproducible ↔
        ∃ v, ModuleSet.build (s.manager.toStore s.clock g).1.modules = .ok v ∧ v.Agree f.vector)) ∧
    (s.manager.Lost s.clock g → ∀ st : Step, st.Rebuilds s.manager.config g →
      ((∃ p, (s.step st).2.manager.held g = some p ∧ p.vector.Agree f.vector) ↔
        f.Reproducible)) := by
  intro s
  have hacc := accounts config steps
  constructor
  · intro hr
    obtain ⟨_, _, _, _, _, _, hheld⟩ := hacc.agree hf hr
    exact ⟨hheld, hacc.vectorOf_agree hf hr s.clock s.files, hacc.toStore_agree hf hr s.clock,
      hacc.toStore_reproducible_iff hf hr s.clock⟩
  · intro hlost st hst
    obtain ⟨modules, ms, hs, hfrom, _⟩ := hacc.resident hf
    have hheld := held_of_rebuilds hst (after_due config steps) hs rfl hlost
    rw [← hfrom.build_iff]
    exact exists_iff_of_map_eq_toOption hheld fun v => v.Agree f.vector

def shortLived : Config := { Config.default with guildCache := ⟨10, 200⟩ }

def usersModule : PolicyModule := ⟨"users", none, 1, ["user"], [1], [0], .empty, .empty⟩

def extrasModule : PolicyModule := ⟨"extras", none, 1, ["user"], [2], [0], .empty, .empty⟩

/-- One module is merged and another one loaded. -/
def loadPending : List Step :=
  [.admin (.load 1 (.compiled usersModule)), .admin (.compileAll 1),
    .admin (.load 1 (.compiled extrasModule))]

def askUsers : Step := .lookup (.permissions 1 (.name "user")) false

theorem rebuild_invisible_pending :
    let s := (make shortLived).after (loadPending ++ [.sleep 500])
    s.manager.Lost s.clock 1 ∧
      ∃ p, (s.step askUsers).2.manager.held 1 = some p ∧ p.vector.allowed 0 = 1 := by
  intro s
  obtain ⟨v, hf⟩ : ∃ v, (make shortLived).inForce .blank (loadPending ++ [.sleep 500]) 1 =
      some (.merged v) := ⟨_, rfl⟩
  have hv : ((make shortLived).inForce .blank (loadPending ++ [.sleep 500]) 1).map
      (·.vector.allowed 0) = some 1 := by decide +kernel
  have hlost : s.manager.Lost s.clock 1 := by decide +kernel
  obtain ⟨p, hp, hagree⟩ := ((rebuild_invisible_iff hf).2 hlost askUsers (.lookup rfl)).2 trivial
  rw [hf] at hv
  exact ⟨hlost, p, hp, (hagree.allowed 0).trans (Option.some.inj hv)⟩

/-- The pending module is stored beside the access vector that it has no part in. -/
def storePending : List Step :=
  loadPending ++ [.admin (.storeVector 1 "guild.avc"), .admin (.loadVector 1 "guild.avc"),
    askUsers, .sleep 500]

/-- Users may do 1 before the loss and 3 after merging again. -/
theorem rebuild_shows_pending :
    let s := (make shortLived).after storePending
    let s' := (s.step askUsers).2
    ∃ f p, (make shortLived).inForce .blank storePending 1 = some f ∧
      s.manager.Lost s.clock 1 ∧ s'.manager.held 1 = some p ∧
      f.vector.allowed 0 = 1 ∧ p.vector.allowed 0 = 3 ∧ ¬p.vector.Agree f.vector ∧
      (s'.manager.permissionsOf s'.clock false 1 (.name "user")).1 = 3 := by
  intro s s'
  obtain ⟨f, hf⟩ : ∃ f, (make shortLived).inForce .blank storePending 1 = some f := ⟨_, rfl⟩
  obtain ⟨p, hp⟩ : ∃ p, s'.manager.held 1 = some p := ⟨_, rfl⟩
  have hfv : ((make shortLived).inForce .blank storePending 1).map (·.vector.allowed 0) =
      some 1 := by decide +kernel
  have hpv : (s'.manager.held 1).map (·.vector.allowed 0) = some 3 := by decide +kernel
  rw [hf] at hfv
  rw [hp] at hpv
  have hf1 : f.vector.allowed 0 = 1 := Option.some.inj hfv
  have hp3 : p.vector.allowed 0 = 3 := Option.some.inj hpv
  refine ⟨f, p, hf, by decide +kernel, hp, hf1, hp3, fun h => ?_,
    by decide +kernel⟩
  have h13 := h.allowed 0
  rw [hf1, hp3] at h13
  exact absurd h13 (by decide)

end Session

end GuildPolicy
