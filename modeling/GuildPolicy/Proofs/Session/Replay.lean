import GuildPolicy.Proofs.Guild.Loaded
import GuildPolicy.Proofs.Session.Failure
import GuildPolicy.Proofs.Session.Rebuild

namespace GuildPolicy

/-- Adds a module to a guild, if there is one and it is valid. -/
def loadChange? (g : Uuid) (module : Except PolicyError PolicyModule) : Option (Uuid × Change) :=
  match module with
  | .error _ => none
  | .ok m =>
    match m.validate with
    | .error _ => none
    | .ok () => some (g, .load m)

def replaceChange? (g : Uuid) (snapshot : Except PolicyError GuildSnapshot) :
    Option (Uuid × Change) :=
  match snapshot with
  | .error _ => none
  | .ok s => some (g, .replace s.modules.values)

/-- The guild that a step changes, and how; nothing if the step fails before it does. -/
def AdminStep.change? (config : Config) (files : Files) : AdminStep → Option (Uuid × Change)
  | .load g input => loadChange? g input.toModule
  | .loadFile g path => loadChange? g (readModuleFile files path)
  | .unload g name => some (g, .unload name)
  | .modules g | .vector g => some (g, .touch)
  | .compileAll g | .reload g => some (g, .enter)
  | .loadVector g path => replaceChange? g (readGuildFile files path)
  | .loadGuild g =>
    (config.snapshotPath? g).bind fun path => replaceChange? g (readGuildFile files path)
  | .reset g => some (g, .replace [])
  | .evict g => some (g, .evict)
  | .storeVector _ _ | .storeGuild _ | .storeModule _ _ | .compileFile _ | .resident => none

section Replay

variable (config : Config) (g : Uuid)

/-- What is loaded for a guild after a change to one guild, or after none. -/
def replayChange (files : Files) (loaded : Option (List PolicyModule)) :
    Option (Uuid × Change) → Option (List PolicyModule)
  | none => loaded
  | some (h, c) => if h = g then c.apply (config.kept? files g) loaded else loaded

def replayStep (files : Files) (loaded : Option (List PolicyModule)) :
    Step → Option (List PolicyModule)
  | .admin st => replayChange config g files loaded (st.change? config files)
  | .restart => none
  | _ => loaded

def replay (loaded : Option (List PolicyModule)) :
    List (Files × Step) → Option (List PolicyModule)
  | [] => loaded
  | (files, st) :: history => replay (replayStep config g files loaded st) history

end Replay

namespace Manager

variable {m m' : Manager} {files : Files} {g h : Uuid} {c : Change}

theorem Undergoes.loaded_eq (hc : m.Undergoes m' files h c) (g : Uuid) :
    m'.loaded g = replayChange m.config g files (m.loaded g) (some (h, c)) := by
  rw [hc, replayChange]
  split
  · next hne =>
    subst hne
    rw [Function.update_self]
  · next hne => rw [Function.update_of_ne (Ne.symm hne)]

theorem Valid.entries_loaded (hm : m.Valid) (g : Uuid) :
    (m.guilds.get? g).map (fun state => state.modules.entries) =
      (m.loaded g).map underNames := by
  rw [loaded, Option.map_map]
  cases hs : m.guilds.get? g with
  | none => rfl
  | some state => exact congrArg some (hm.state g state hs).modules.entries_eq

end Manager

namespace Session

/-- The steps of a run, each with the files before it. -/
def history (s : Session) : List Step → List (Files × Step)
  | [] => []
  | st :: steps => (s.files, st) :: (s.step st).2.history steps

section Step

variable {s : Session} {L : Ledger}

theorem load_loaded (hv : s.manager.Valid) (h g : Uuid) (module : PolicyModule) :
    (s.manager.load s.clock s.files h module).2.loaded g =
      replayChange s.manager.config g s.files (s.manager.loaded g)
        (loadChange? h (.ok module)) := by
  rw [loadChange?]
  cases hvalid : module.validate with
  | error e => rw [Manager.load, hvalid, replayChange]
  | ok => exact (hv.load_undergoes hvalid).loaded_eq g

theorem loadVector_loaded (s : Session) (h g : Uuid) (path : String) :
    (s.manager.loadVector s.clock s.files h path).2.loaded g =
      replayChange s.manager.config g s.files (s.manager.loaded g)
        (replaceChange? h (readGuildFile s.files path)) := by
  cases hr : readGuildFile s.files path with
  | error e => rw [Manager.loadVector, hr, replaceChange?, replayChange]
  | ok snap => exact (Manager.loadVector_undergoes hr).loaded_eq g

theorem admin_loaded (hv : s.manager.Valid) (ha : L.Accounts s.manager) (st : AdminStep)
    (g : Uuid) : (s.admin st).2.manager.loaded g =
      replayStep s.manager.config g s.files (s.manager.loaded g) (.admin st) := by
  cases st with
  | load h input =>
    simp only [admin, replayStep, AdminStep.change?]
    cases input.toModule with
    | error e => rfl
    | ok module => exact load_loaded hv h g module
  | loadFile h path =>
    simp only [admin, replayStep, AdminStep.change?, Manager.loadFile]
    cases readModuleFile s.files path with
    | error e => rfl
    | ok module => exact load_loaded hv h g module
  | unload h name => exact (hv.unload_undergoes name).loaded_eq g
  | modules h => exact (Manager.modulesOf_shows hv s.clock s.files h).2.loaded_eq g
  | compileAll h => exact (s.manager.compileAll_undergoes s.clock s.files h).loaded_eq g
  | reload h =>
    change (s.resolver.reload s.manager s.clock s.files h).2.2.loaded g = _
    rw [s.resolver.reload_manager]
    exact (s.manager.compileAll_undergoes s.clock s.files h).loaded_eq g
  | vector h => exact (Manager.vectorOf_undergoes ha.held_of_cold).loaded_eq g
  | storeVector h path =>
    exact congrFun (s.manager.loaded_store s.clock s.files h path) g
  | loadVector h path => exact s.loadVector_loaded h g path
  | storeGuild h => exact congrFun (s.manager.loaded_storeGuild s.clock s.files h) g
  | loadGuild h =>
    simp only [admin, replayStep, AdminStep.change?, Manager.loadGuild]
    cases s.manager.config.snapshotPath? h with
    | none => rfl
    | some path => exact s.loadVector_loaded h g path
  | storeModule path input =>
    simp only [admin]
    cases input.toModule with
    | error e => rfl
    | ok module => rfl
  | evict h => exact (s.manager.evict_undergoes s.files h).loaded_eq g
  | reset h => exact (s.manager.reset_undergoes s.clock s.files h).loaded_eq g
  | compileFile | resident => rfl

theorem loaded_lookup (s : Session) (detached : Bool) (l : Lookup) :
    (s.lookup detached l).2.manager.loaded = s.manager.loaded := by
  rw [lookup_manager]
  cases l.asks? with
  | none => rfl
  | some g => exact Manager.loaded_of_guilds Manager.guilds_current

theorem step_loaded (hv : s.manager.Valid) (ha : L.Accounts s.manager) (st : Step) (g : Uuid) :
    (s.step st).2.manager.loaded g =
      replayStep s.manager.config g s.files (s.manager.loaded g) st := by
  have hsettle : (s.step st).2.manager.loaded = (s.act st).2.manager.loaded :=
    Manager.loaded_of_guilds Manager.guilds_settle
  rw [hsettle]
  cases st with
  | admin st => exact admin_loaded hv ha st g
  | lookup l detached => exact congrFun (s.loaded_lookup detached l) g
  | label | file | invalidateGuild | invalidateEntity | invalidateMember | describeResolver
  | restart | sleep => rfl

theorem step_config (s : Session) (st : Step) :
    (s.step st).2.manager.config = s.manager.config := by
  by_cases hr : st = .restart
  · subst hr
    rfl
  · exact (s.step_moves .blank hr).config

theorem step_lifetime {config : Config} (hc : s.manager.config = config)
    (h : s.manager.cache.lifetime = config.guildCache.lifetime) (st : Step) :
    (s.step st).2.manager.cache.lifetime = config.guildCache.lifetime := by
  by_cases hr : st = .restart
  · subst hr
    exact congrArg (·.guildCache.lifetime) hc
  · exact (s.step_moves .blank hr).lifetime.trans h

end Step

variable {config : Config} {steps : List Step} {g : Uuid}

theorem after_config (config : Config) (steps : List Step) :
    ((make config).after steps).manager.config = config :=
  after_induction (P := fun s => s.manager.config = config) rfl
    (fun s st h => (s.step_config st).trans h) steps

theorem after_lifetime (config : Config) (steps : List Step) :
    ((make config).after steps).manager.cache.lifetime = config.guildCache.lifetime :=
  (after_induction (P := fun s => s.manager.config = config ∧
      s.manager.cache.lifetime = config.guildCache.lifetime) ⟨rfl, rfl⟩
    (fun s st h => ⟨(s.step_config st).trans h.1, step_lifetime h.1 h.2 st⟩) steps).2

theorem after_loaded {s : Session} {L : Ledger} (hc : s.manager.config = config)
    (hv : s.manager.Valid) (ha : L.Accounts s.manager) (steps : List Step) (g : Uuid) :
    (s.after steps).manager.loaded g =
      replay config g (s.manager.loaded g) (s.history steps) := by
  induction steps generalizing s L with
  | nil => rfl
  | cons st steps ih =>
    rw [after_cons, ih ((s.step_config st).trans hc) (step_valid hv) (s.step_accounts L ha),
      step_loaded hv ha st g, hc]
    rfl

theorem step_of_merge {s : Session} {st : AdminStep} (hst : st = .compileAll g ∨ st = .reload g) :
    (s.step (.admin st)).1 = .ofExcept .vector (s.manager.compileAll s.clock s.files g).1 ∧
      (s.act (.admin st)).2.manager = (s.manager.compileAll s.clock s.files g).2 := by
  rcases hst with rfl | rfl
  · exact ⟨rfl, rfl⟩
  · exact ⟨congrArg (Answer.ofExcept .vector) (s.resolver.reload_fst s.manager s.clock s.files g),
      s.resolver.reload_manager s.manager s.clock s.files g⟩

/-- After every run, the modules of a guild are what its history makes of a list of modules: they
are listed under their names in the order of the list when they are asked for, a merge gives what
this list merges into, and what was merged is current until it expires. -/
theorem loaded_replay (config : Config) (steps : List Step) (g : Uuid) :
    let s := (make config).after steps
    let loaded := replay config g none ((make config).history steps)
    let shown := (loaded.or (config.kept? s.files g)).getD []
    (s.manager.guilds.get? g).map (fun state => state.modules.entries) = loaded.map underNames ∧
    (∃ ms, (s.step (.admin (.modules g))).1 = .modules ms ∧ ms.entries = underNames shown) ∧
    ∀ st, st = .compileAll g ∨ st = .reload g →
      (∀ c, AccessVector.build shown = .error c →
        (s.step (.admin st)).1 = .failed (.conflict c)) ∧
      ∀ v, AccessVector.build shown = .ok v →
        (s.step (.admin st)).1 = .vector v ∧
        ∀ soon detached, soon - s.clock < config.guildCache.lifetime →
          ∃ p, ((s.step (.admin st)).2.manager.current soon detached g).1 = some p ∧
            p.vector = v ∧ p.serial + 1 = (s.step (.admin st)).2.manager.nextSerial := by
  intro s loaded shown
  have hv := valid config steps
  have hloaded : s.manager.loaded g = loaded :=
    after_loaded rfl (Manager.valid_make config) (Ledger.accounts_make config) steps g
  have hshown : s.manager.shown s.files g = shown := by
    rw [Manager.shown, hloaded, after_config]
  refine ⟨?_, ?_, fun st hst => ?_⟩
  · rw [← hloaded]
    exact hv.entries_loaded g
  · rw [← hshown]
    exact ⟨_, rfl, (Manager.modulesOf_shows hv s.clock s.files g).1⟩
  · obtain ⟨hanswer, hmanager⟩ := step_of_merge (s := s) hst
    have hbuild := hv.compileAll_fst s.clock s.files g
    rw [hshown] at hbuild
    rw [hanswer, hbuild]
    refine ⟨fun c hc => ?_, fun v hok => ?_⟩
    · rw [hc]
      rfl
    · rw [hok] at hbuild ⊢
      obtain ⟨hdue, hcurrent⟩ := Manager.compileAll_current hbuild
      rw [← hmanager, after_due] at hdue
      have hstep : (s.step (.admin st)).2.manager = (s.act (.admin st)).2.manager :=
        Manager.settle_of_idle hdue
      rw [hstep, hmanager]
      refine ⟨rfl, fun soon detached hsoon => hcurrent soon detached ?_⟩
      rw [after_lifetime]
      exact hsoon

def widerUsers : PolicyModule := { usersModule with allow := [4] }

/-- A module is replaced before another one is unloaded and comes back; then the guild is stored and
evicted, and a module is loaded for another guild. -/
def storeReplaced : List Step :=
  [.admin (.load 1 (.compiled usersModule)), .admin (.load 1 (.compiled extrasModule)),
    .admin (.load 1 (.compiled widerUsers)), .admin (.unload 1 "users"),
    .admin (.load 1 (.compiled widerUsers)), .admin (.load 1 (.compiled extrasModule)),
    .admin (.storeGuild 1), .admin (.evict 1), .admin (.load 2 (.compiled usersModule))]

theorem loaded_replay_evicted :
    let s := (make keptSnapshots).after storeReplaced
    s.manager.guilds.get? 1 = none ∧
    (∃ ms, (s.step (.admin (.modules 1))).1 = .modules ms ∧
      ms.entries = [("extras", extrasModule), ("users", widerUsers)]) ∧
    ∃ v, AccessVector.build [extrasModule, widerUsers] = .ok v ∧
      (s.step (.admin (.compileAll 1))).1 = .vector v ∧
      ∃ p, ((s.step (.admin (.compileAll 1))).2.manager.current s.clock false 1).1 = some p ∧
        p.vector = v := by
  intro s
  have hloaded : replay keptSnapshots 1 none ((make keptSnapshots).history storeReplaced) =
      none := by decide +kernel
  have hkept : keptSnapshots.kept? s.files 1 = some [extrasModule, widerUsers] := by decide +kernel
  have hmerges : (AccessVector.build [extrasModule, widerUsers]).isOk := by decide +kernel
  have hreplay := loaded_replay keptSnapshots storeReplaced 1
  have hs : (make keptSnapshots).after storeReplaced = s := rfl
  rw [hloaded, hs] at hreplay
  clear_value s
  dsimp only at hreplay
  rw [hkept] at hreplay
  obtain ⟨hgone, hmodules, hmerge⟩ := hreplay
  refine ⟨Option.map_eq_none_iff.1 hgone, hmodules, ?_⟩
  cases hb : AccessVector.build [extrasModule, widerUsers] with
  | error c =>
    rw [hb] at hmerges
    cases hmerges
  | ok v =>
    obtain ⟨hanswer, hcurrent⟩ := (hmerge _ (.inl rfl)).2 v hb
    obtain ⟨p, hp, hvector, -⟩ := hcurrent s.clock false (by rw [Nat.sub_self]; decide)
    exact ⟨v, rfl, hanswer, p, hp, hvector⟩

end Session

end GuildPolicy
