import GuildPolicy.Proofs.Guild.Rebuild
import GuildPolicy.Proofs.Guild.Serials
import GuildPolicy.Proofs.Guild.Validity

namespace GuildPolicy

theorem readGuildFile_of_read {files : Files} {path : String} {bytes : List UInt8}
    {s : GuildSnapshot} (hread : files.read path = .ok bytes)
    (hdecode : decodeGuild bytes = .ok s) : readGuildFile files path = .ok s := by
  rw [readGuildFile, hread]
  dsimp only
  rw [hdecode]

namespace Manager

variable {m m' m'' : Manager} {now : Nat} {files : Files} {g h : Uuid} {state : GuildState}
variable {s : GuildSnapshot} {path : String} {detached : Bool}

section Stored

theorem Lost.rebuild_again (hl : m.Lost now g) :
    (m.cached now g).2.rebuild now g state = m.rebuild now g state := by
  have hc : (m.cached now g).2.cached now g = (none, (m.cached now g).2) := by
    rw [Manager.cached, IdleCache.get_of_peek_eq_none hl.held]
  rw [Manager.rebuild, Manager.rebuild, hc, hl.cached]

theorem restore_of_resident (hs : m.guilds.get? g = some state) :
    m.restore now files g = (some state, m) := by
  rw [restore, hs]

theorem modulesOf_of_resident (hs : m.guilds.get? g = some state) :
    m.modulesOf now files g = (state.modules, m) := by
  rw [modulesOf, restore_of_resident hs]

theorem vectorOf_of_resident (hs : m.guilds.get? g = some state) :
    m.vectorOf now files g =
      ((m.rebuild now g state).1.getD .empty, (m.rebuild now g state).2) := by
  by_cases hl : m.Lost now g
  · rw [hl.vectorOf hs, hl.rebuild_again]
  · obtain ⟨p, hp⟩ := Option.ne_none_iff_exists'.1 hl
    have hc : m.cached now g = (some p, (m.cached now g).2) := Prod.ext hp rfl
    rw [vectorOf, rebuild, hc]
    rfl

/-- What is stored of a resident guild is what is answered when its modules and its access vector
are asked for. -/
theorem toStore_of_resident (files : Files) (hs : m.guilds.get? g = some state) :
    m.toStore now g =
      (⟨(m.vectorOf now files g).1, (m.modulesOf now files g).1⟩,
        (m.vectorOf now files g).2) := by
  rw [vectorOf_of_resident hs, modulesOf_of_resident hs, toStore, hs]

end Stored

section Installed

/-- A manager in which a snapshot was just installed. -/
structure Installed (m : Manager) (now : Nat) (h : Uuid) (s : GuildSnapshot) (m' : Manager) :
    Prop where
  resident : m'.guilds.get? h = some (.restored s.modules)
  later : (m.install now h (.restored s.modules) (some s.vector)).Later m'
  /-- The access vector is there until it expires. -/
  current : ∀ soon, soon - now < m.cache.lifetime →
    (m'.cached soon h).1 = some ⟨m.nextSerial, s.vector⟩
  idle : m'.due = m.due

theorem cached_install {soon : Nat} {v : AccessVector} (hsoon : soon - now < m.cache.lifetime) :
    ((m.install now h state (some v)).cached soon h).1 = some ⟨m.nextSerial, v⟩ :=
  IdleCache.get_insert_self hsoon

theorem installed_install :
    m.Installed now h s (m.install now h (.restored s.modules) (some s.vector)) where
  resident := Table.get?_insert_self ..
  later := .refl _
  current _ := cached_install
  idle := rfl

/-- What was installed is told from whatever comes later by its number. -/
theorem Installed.eq_of_serial {p : Published} (hi : m.Installed now h s m') (hn : m.Numbered)
    (hl : m'.Later m'') (hp : m''.held h = some p) (hserial : p.serial = m.nextSerial) :
    p = ⟨m.nextSerial, s.vector⟩ := by
  have hn' : (m.install now h (.restored s.modules) (some s.vector)).Numbered :=
    (Later.publish { m with guilds := _ } now h s.vector).numbered hn
  have hp' : (m.install now h (.restored s.modules) (some s.vector)).held h =
      some ⟨m.nextSerial, s.vector⟩ := IdleCache.peek_insert_self
  exact (hi.later.trans hl).eq_of_serial hn' hp' hp hserial

theorem rebuild_of_cached {p : Published} (hp : (m.cached now g).1 = some p) :
    m.rebuild now g state = (some p.vector, (m.cached now g).2) := by
  rw [rebuild, show m.cached now g = (some p, (m.cached now g).2) from Prod.ext hp rfl]

theorem rebuild_guilds : (m.rebuild now g state).2.guilds = m.guilds := by
  rw [rebuild]
  split
  · next hc => exact congrArg (·.2.guilds) hc.symm
  · next hc =>
    split
    · exact congrArg (·.2.guilds) hc.symm
    · split
      · exact congrArg (·.2.guilds) hc.symm
      · exact congrArg (·.2.guilds) hc.symm

theorem installed_rebuild : m.Installed now h s
    ((m.install now h (.restored s.modules) (some s.vector)).rebuild now h
      (.restored s.modules)).2 := by
  have hi : m.Installed now h s _ := installed_install
  refine ⟨?_, ?_, fun soon hsoon => ?_, rebuild_due.trans hi.idle⟩
  · rw [rebuild_guilds]
    exact hi.resident
  · exact (rebuild_moves .blank now .empty h hi.resident).moves.later
  · have hnow := hi.current now (by omega)
    rw [rebuild_of_cached hnow]
    have hlifetime : (m.install now h (.restored s.modules) (some s.vector)).cache.lifetime =
        m.cache.lifetime := IdleCache.lifetime_insert
    exact IdleCache.get_get_self hnow (hlifetime.symm ▸ hsoon)

theorem loadVector_of_read (hr : readGuildFile files path = .ok s) :
    m.loadVector now files h path =
      (.ok (), m.install now h (.restored s.modules) (some s.vector)) := by
  rw [loadVector, hr]

theorem loadGuild_of_read (hp : m.config.snapshotPath? h = some path)
    (hr : readGuildFile files path = .ok s) :
    m.loadGuild now files h =
      (.ok true, m.install now h (.restored s.modules) (some s.vector)) := by
  rw [loadGuild, hp]
  dsimp only
  rw [loadVector_of_read hr]
  rfl

theorem restore_of_read (hnone : m.guilds.get? h = none)
    (hp : m.config.snapshotPath? h = some path) (hr : readGuildFile files path = .ok s) :
    m.restore now files h =
      (some (.restored s.modules), m.install now h (.restored s.modules) (some s.vector)) := by
  have hsnap : m.snapshot? files h = some s := by
    rw [snapshot?, hp, Option.bind_some, hr]
    rfl
  rw [restore, hnone, hsnap]

end Installed

section Leaves

/-- A guild that is resident is left as it is. -/
def Leaves (m m' : Manager) (h : Uuid) : Prop :=
  ∀ state, m.guilds.get? h = some state → m'.guilds.get? h = some state

namespace Leaves

theorem refl (m : Manager) : m.Leaves m h := fun _ hs => hs

theorem trans (hl : m.Leaves m' h) (hl' : m'.Leaves m'' h) : m.Leaves m'' h :=
  fun state hs => hl' state (hl state hs)

theorem of_guilds (he : m'.guilds = m.guilds) : m.Leaves m' h := fun _ hs => by rw [he, hs]

theorem insert (hne : g ≠ h) : m.Leaves { m with guilds := m.guilds.insert g state } h :=
  fun _ hs => (Table.get?_insert_of_ne hne).trans hs

theorem install (hne : g ≠ h) (v : Option AccessVector) :
    m.Leaves (m.install now g state v) h := by
  intro state' hs
  cases v with
  | none => exact (Table.get?_insert_of_ne hne).trans hs
  | some v => exact (Table.get?_insert_of_ne hne).trans hs

theorem restore : m.Leaves (m.restore now files g).2 h := by
  rw [Manager.restore]
  cases hg : m.guilds.get? g with
  | some state => exact refl m
  | none =>
    cases m.snapshot? files g with
    | none => exact refl m
    | some s =>
      intro state hs
      have hne : g ≠ h := by
        rintro rfl
        rw [hg] at hs
        cases hs
      exact install hne (some s.vector) state hs

theorem resident (hne : g ≠ h) : m.Leaves (m.resident now files g).2 h := by
  have hr : m.Leaves (m.restore now files g).2 h := restore
  rw [Manager.resident]
  split
  · next hc =>
    rw [hc] at hr
    exact hr
  · next hc =>
    rw [hc] at hr
    exact hr.trans (insert hne)

theorem load (hne : g ≠ h) (module : PolicyModule) :
    m.Leaves (m.load now files g module).2 h := by
  rw [Manager.load]
  cases module.validate with
  | error e => exact refl m
  | ok => exact (resident hne).trans (insert hne)

theorem loadFile (hne : g ≠ h) : m.Leaves (m.loadFile now files g path).2 h := by
  rw [Manager.loadFile]
  cases readModuleFile files path with
  | error e => exact refl m
  | ok module => exact load hne module

theorem unload (hne : g ≠ h) (name : String) : m.Leaves (m.unload now files g name).2 h := by
  have hr : m.Leaves (m.restore now files g).2 h := restore
  rw [Manager.unload]
  split
  · next hc =>
    rw [hc] at hr
    exact hr
  · next hc =>
    rw [hc] at hr
    exact hr.trans (insert hne)

theorem modulesOf : m.Leaves (m.modulesOf now files g).2 h := by
  have hr : m.Leaves (m.restore now files g).2 h := restore
  rw [Manager.modulesOf]
  split
  · next hc =>
    rw [hc] at hr
    exact hr
  · next hc =>
    rw [hc] at hr
    exact hr

theorem compileAll (hne : g ≠ h) : m.Leaves (m.compileAll now files g).2 h := by
  have hr : m.Leaves (m.resident now files g).2 h := resident hne
  rw [Manager.compileAll]
  dsimp only
  cases (m.resident now files g).1.modules.build with
  | error e => exact hr
  | ok v =>
    dsimp only
    cases v.validate with
    | error e => exact hr
    | ok => exact hr.trans (insert hne)

theorem loadVector (hne : g ≠ h) : m.Leaves (m.loadVector now files g path).2 h := by
  rw [Manager.loadVector]
  cases readGuildFile files path with
  | error e => exact refl m
  | ok s => exact install hne (some s.vector)

theorem loadGuild (hne : g ≠ h) : m.Leaves (m.loadGuild now files g).2 h := by
  rw [Manager.loadGuild]
  cases m.config.snapshotPath? g with
  | none => exact refl m
  | some path => exact loadVector hne

theorem evict (hne : g ≠ h) : m.Leaves (m.evict g) h := by
  intro state hs
  change (m.guilds.erase g).get? h = _
  rw [Table.get?_erase, if_neg hne, hs]

theorem rebuild : m.Leaves (m.rebuild now g state).2 h := of_guilds rebuild_guilds

theorem vectorOf : m.Leaves (m.vectorOf now files g).2 h := by
  have hc : m.Leaves (m.cached now g).2 h := of_guilds rfl
  rw [Manager.vectorOf]
  split
  · next hf =>
    rw [hf] at hc
    exact hc
  · next m₁ hf =>
    rw [hf] at hc
    have hr : m₁.Leaves (m₁.restore now files g).2 h := restore
    split
    · next hf' =>
      rw [hf'] at hr
      exact hc.trans hr
    · next hf' =>
      rw [hf'] at hr
      exact (hc.trans hr).trans rebuild

theorem store : m.Leaves (m.store now files g path).2.1 h := by
  rw [store_eq, toStore]
  cases m.guilds.get? g with
  | none => exact refl m
  | some state => exact rebuild

theorem storeGuild : m.Leaves (m.storeGuild now files g).2.1 h := by
  rw [Manager.storeGuild]
  cases m.config.snapshotPath? g with
  | none => exact refl m
  | some path => exact store

theorem current : m.Leaves (m.current now detached g).2 h := by
  have hc : m.Leaves (m.cached now g).2 h := of_guilds rfl
  rw [Manager.current]
  split
  · next hf =>
    rw [hf] at hc
    exact hc
  · next hf =>
    rw [hf] at hc
    split
    · exact hc
    · split
      · exact hc.trans (of_guilds rfl)
      · exact hc

theorem settle : m.Leaves (m.settle now) h := by
  have hfold (gs : List Uuid) (m : Manager) : m.Leaves (gs.foldl (settleGuild now) m) h := by
    induction gs generalizing m with
    | nil => exact refl m
    | cons g gs ih =>
      refine trans ?_ (ih _)
      rw [settleGuild]
      cases m.guilds.get? g with
      | none => exact refl m
      | some state => exact rebuild
  exact (of_guilds rfl).trans (hfold m.due { m with due := [] })

end Leaves

end Leaves

end Manager

end GuildPolicy
