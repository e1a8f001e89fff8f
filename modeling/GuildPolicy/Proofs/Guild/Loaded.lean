import GuildPolicy.Proofs.Guild.Storage

namespace GuildPolicy

/-- The modules with one more, in the place of the one of its name or after all others. -/
def loadInto (module : PolicyModule) (ms : List PolicyModule) : List PolicyModule :=
  if ∃ m ∈ ms, m.name = module.name then
    ms.map fun m => if m.name = module.name then module else m
  else ms ++ [module]

def unloadFrom (name : String) (ms : List PolicyModule) : List PolicyModule :=
  ms.filter (·.name ≠ name)

def underNames (ms : List PolicyModule) : List (String × PolicyModule) :=
  ms.map fun m => (m.name, m)

/-- A change to what is loaded for a guild. -/
inductive Change
  /-- Takes over what is kept of a guild that is not resident. -/
  | touch
  /-- Makes the guild resident, with what is kept of it or without modules. -/
  | enter
  | load (module : PolicyModule)
  | unload (name : String)
  | replace (ms : List PolicyModule)
  | evict

/-- What is loaded after a change, from what is kept and what was loaded, if there is either. -/
def Change.apply (kept loaded : Option (List PolicyModule)) : Change → Option (List PolicyModule)
  | .touch => loaded.or kept
  | .enter => some ((loaded.or kept).getD [])
  | .load module => some (loadInto module ((loaded.or kept).getD []))
  | .unload name => (loaded.or kept).map (unloadFrom name)
  | .replace ms => some ms
  | .evict => none

section ModuleSet

variable {ms : ModuleSet} {l : List PolicyModule} {module : PolicyModule}

theorem map_fst_underNames (l : List PolicyModule) :
    (underNames l).map Prod.fst = l.map PolicyModule.name := by
  rw [underNames, List.map_map]
  rfl

theorem map_snd_underNames (l : List PolicyModule) : (underNames l).map Prod.snd = l := by
  rw [underNames, List.map_map]
  exact List.map_id l

theorem ModuleSet.Valid.entries_eq (h : ms.Valid) : ms.entries = underNames ms.values := by
  have hnames : ∀ e ∈ ms.entries, (e.2.name, e.2) = e := by
    intro e he
    obtain ⟨_, _, hname⟩ := bind_eq_ok_iff.1 (h e he)
    split at hname
    · next heq => rw [← heq]
    · cases hname
  rw [underNames, Table.values, List.map_map]
  exact ((List.map_congr_left hnames).trans (List.map_id _)).symm

theorem map_snd_put (h : (l.map PolicyModule.name).Nodup) :
    (Table.put module.name module (underNames l)).map Prod.snd = loadInto module l := by
  induction l with
  | nil => rfl
  | cons m l ih =>
    obtain ⟨hm, hl⟩ := List.nodup_cons.1 h
    change (Table.put module.name module ((m.name, m) :: underNames l)).map Prod.snd = _
    rw [Table.put]
    by_cases hname : m.name = module.name
    · have hothers : ∀ m' ∈ l, (if m'.name = module.name then module else m') = m' := by
        intro m' hm'
        rw [if_neg]
        exact fun hname' => hm (List.mem_map.2 ⟨m', hm', hname'.trans hname.symm⟩)
      rw [if_pos hname, loadInto, if_pos ⟨m, List.mem_cons_self .., hname⟩, List.map_cons,
        List.map_cons, map_snd_underNames, if_pos hname, List.map_congr_left hothers, List.map_id']
    · have hiff : (∃ m' ∈ m :: l, m'.name = module.name) ↔ ∃ m' ∈ l, m'.name = module.name := by
        rw [List.exists_mem_cons_iff]
        exact or_iff_right hname
      rw [if_neg hname, List.map_cons, ih hl, loadInto, loadInto]
      simp only [hiff]
      split
      · rw [List.map_cons, if_neg hname]
      · rfl

theorem ModuleSet.Valid.values_insert (h : ms.Valid) (module : PolicyModule) :
    (ms.insert module.name module).values = loadInto module ms.values := by
  have hnodup : (ms.values.map PolicyModule.name).Nodup := by
    rw [← map_fst_underNames, ← h.entries_eq]
    exact ms.nodup
  change (Table.put module.name module ms.entries).map Prod.snd = _
  rw [h.entries_eq, map_snd_put hnodup]

theorem ModuleSet.Valid.values_erase (h : ms.Valid) (name : String) :
    (ms.erase name).values = unloadFrom name ms.values := by
  change (ms.entries.filter fun e => decide (e.1 ≠ name)).map Prod.snd = _
  rw [h.entries_eq, underNames, List.filter_map, List.map_map]
  exact List.map_id _

end ModuleSet

/-- The modules in the snapshot that is kept of a guild, if it can be read. -/
def Config.kept? (config : Config) (files : Files) (g : Uuid) : Option (List PolicyModule) :=
  (config.snapshotPath? g).bind fun path =>
    (readGuildFile files path).toOption.map fun s => s.modules.values

namespace Manager

variable {m m' : Manager} {now : Nat} {files : Files} {g : Uuid} {state : GuildState}
variable {path : String} {s : GuildSnapshot} {detached : Bool}

/-- The modules that are loaded for a guild, if it is resident. -/
def loaded (m : Manager) (g : Uuid) : Option (List PolicyModule) :=
  (m.guilds.get? g).map fun state => state.modules.values

/-- The modules to see of a guild: those that are loaded, else those that are kept. -/
def shown (m : Manager) (files : Files) (g : Uuid) : List PolicyModule :=
  ((m.loaded g).or (m.config.kept? files g)).getD []

/-- One guild undergoes a change, and what is loaded for others stays. -/
def Undergoes (m m' : Manager) (files : Files) (g : Uuid) (c : Change) : Prop :=
  m'.loaded = Function.update m.loaded g (c.apply (m.config.kept? files g) (m.loaded g))

theorem kept?_of_snapshot? (m : Manager) (files : Files) (g : Uuid) :
    (m.snapshot? files g).map (fun s => s.modules.values) = m.config.kept? files g := by
  rw [snapshot?, Config.kept?, Option.map_bind]
  rfl

theorem loaded_of_guilds (h : m'.guilds = m.guilds) : m'.loaded = m.loaded := by
  funext h'
  rw [loaded, loaded, h]

theorem loaded_of_insert (h : m'.guilds = m.guilds.insert g state) :
    m'.loaded = Function.update m.loaded g (some state.modules.values) := by
  funext h'
  rw [loaded, h]
  by_cases hne : h' = g
  · subst hne
    rw [Table.get?_insert_self, Function.update_self]
    rfl
  · rw [Table.get?_insert_of_ne (Ne.symm hne), Function.update_of_ne hne]
    rfl

theorem guilds_install (m : Manager) (now : Nat) (g : Uuid) (state : GuildState)
    (v : Option AccessVector) : (m.install now g state v).guilds = m.guilds.insert g state := by
  cases v with
  | none | some => rfl

theorem restore_shows (m : Manager) (now : Nat) (files : Files) (g : Uuid) :
    (m.restore now files g).1.map (fun state => state.modules.values) =
        (m.loaded g).or (m.config.kept? files g) ∧
      m.Undergoes (m.restore now files g).2 files g .touch := by
  rw [restore, Undergoes, Change.apply, ← kept?_of_snapshot?, loaded]
  cases hs : m.guilds.get? g with
  | some state =>
    have hsame : m.loaded g = some state.modules.values := by rw [loaded, hs]; rfl
    refine ⟨rfl, ?_⟩
    rw [Option.map_some, Option.some_or, ← hsame, Function.update_eq_self]
  | none =>
    cases m.snapshot? files g with
    | none =>
      have hsame : m.loaded g = none := by rw [loaded, hs]; rfl
      refine ⟨rfl, ?_⟩
      rw [Option.map_none, Option.map_none, Option.none_or, ← hsame, Function.update_eq_self]
    | some s => exact ⟨rfl, loaded_of_insert (guilds_install ..)⟩

theorem resident_shows (m : Manager) (now : Nat) (files : Files) (g : Uuid) :
    (m.resident now files g).1.modules.values = m.shown files g ∧
      m.Undergoes (m.resident now files g).2 files g .enter := by
  obtain ⟨hstate, hloaded⟩ := m.restore_shows now files g
  rw [Undergoes] at hloaded ⊢
  rw [Change.apply] at hloaded
  rw [Change.apply, resident, shown]
  split
  · next h =>
    rw [h] at hstate hloaded
    rw [← hstate]
    refine ⟨rfl, ?_⟩
    rw [hloaded, ← hstate]
    rfl
  · next h =>
    rw [h] at hstate hloaded
    refine ⟨by rw [← hstate]; rfl, ?_⟩
    rw [loaded_of_insert rfl, hloaded, Function.update_idem, ← hstate]
    rfl

theorem Valid.restored (hm : m.Valid) (h : m.restore now files g = (some state, m')) :
    state.Valid := by
  have hmoves := m.restore_moves .blank now files g
  rw [h] at hmoves
  exact (hmoves.moves.valid hm).state g state (guilds_of_restore h)

theorem Valid.resident (hm : m.Valid) (now : Nat) (files : Files) (g : Uuid) :
    (m.resident now files g).1.Valid :=
  ((m.resident_moves .blank now files g).moves.valid hm).state g _ (m.guilds_resident now files g)

theorem undergoes_touch (hs : m.guilds.get? g = some state) (h : m'.loaded = m.loaded) :
    m.Undergoes m' files g .touch := by
  have hsome : m.loaded g = some state.modules.values := by
    rw [loaded, hs]
    rfl
  rw [Undergoes, Change.apply, hsome, Option.some_or, ← hsome, Function.update_eq_self, h]

theorem Valid.load_undergoes (hm : m.Valid) {module : PolicyModule}
    (hvalid : module.validate = .ok ()) :
    m.Undergoes (m.load now files g module).2 files g (.load module) := by
  obtain ⟨hstate, hloaded⟩ := m.resident_shows now files g
  have hmodules := (hm.resident now files g).modules.values_insert module
  rw [load, hvalid]
  dsimp only
  rw [Undergoes, loaded_of_insert rfl, hloaded, Function.update_idem, hmodules, hstate]
  rfl

theorem Valid.unload_undergoes (hm : m.Valid) (name : String) :
    m.Undergoes (m.unload now files g name).2 files g (.unload name) := by
  obtain ⟨hstate, hloaded⟩ := m.restore_shows now files g
  rw [Undergoes] at hloaded ⊢
  rw [Change.apply] at hloaded
  rw [Change.apply, unload]
  split
  · next h =>
    rw [h] at hstate hloaded
    rw [hloaded, ← hstate]
    rfl
  · next state m₁ h =>
    have hmodules := (hm.restored h).modules.values_erase name
    rw [h] at hstate hloaded
    rw [loaded_of_insert rfl, hloaded, Function.update_idem, ← hstate, hmodules]
    rfl

theorem modulesOf_shows (hm : m.Valid) (now : Nat) (files : Files) (g : Uuid) :
    (m.modulesOf now files g).1.entries = underNames (m.shown files g) ∧
      m.Undergoes (m.modulesOf now files g).2 files g .touch := by
  obtain ⟨hstate, hloaded⟩ := m.restore_shows now files g
  rw [modulesOf, shown]
  split
  · next h =>
    rw [h] at hstate hloaded
    rw [← hstate]
    exact ⟨rfl, hloaded⟩
  · next state m₁ h =>
    have hmodules := (hm.restored h).modules.entries_eq
    rw [h] at hstate hloaded
    rw [← hstate]
    exact ⟨hmodules, hloaded⟩

theorem vectorOf_undergoes (hcold : m.guilds.get? g = none → m.held g = none) :
    m.Undergoes (m.vectorOf now files g).2 files g .touch := by
  rw [vectorOf]
  split
  · next p m₁ h =>
    obtain rfl : (m.cached now g).2 = m₁ := congrArg Prod.snd h
    cases hs : m.guilds.get? g with
    | none =>
      rw [held_of_cached (congrArg Prod.fst h)] at hcold
      cases hcold hs
    | some state => exact undergoes_touch hs (loaded_of_guilds rfl)
  · next m₁ h =>
    obtain rfl : (m.cached now g).2 = m₁ := congrArg Prod.snd h
    have hsame : (m.cached now g).2.loaded = m.loaded := loaded_of_guilds rfl
    obtain ⟨_, hloaded⟩ := (m.cached now g).2.restore_shows now files g
    rw [Undergoes, hsame] at hloaded
    split
    · next h' =>
      rw [h'] at hloaded
      exact hloaded
    · next h' =>
      rw [h'] at hloaded
      exact (loaded_of_guilds rebuild_guilds).trans hloaded

theorem compileAll_undergoes (m : Manager) (now : Nat) (files : Files) (g : Uuid) :
    m.Undergoes (m.compileAll now files g).2 files g .enter := by
  obtain ⟨hstate, hloaded⟩ := m.resident_shows now files g
  rw [compileAll]
  dsimp only
  cases (m.resident now files g).1.modules.build with
  | error e => exact hloaded
  | ok v =>
    dsimp only
    cases v.validate with
    | error e => exact hloaded
    | ok =>
      rw [Undergoes] at hloaded ⊢
      refine (loaded_of_insert rfl).trans ?_
      rw [hloaded, Function.update_idem, hstate]
      rfl

theorem loadVector_undergoes (hr : readGuildFile files path = .ok s) :
    m.Undergoes (m.loadVector now files g path).2 files g (.replace s.modules.values) := by
  rw [loadVector_of_read hr]
  exact loaded_of_insert (guilds_install ..)

theorem reset_undergoes (m : Manager) (now : Nat) (files : Files) (g : Uuid) :
    m.Undergoes (m.reset now g) files g (.replace []) :=
  loaded_of_insert (guilds_install ..)

theorem evict_undergoes (m : Manager) (files : Files) (g : Uuid) :
    m.Undergoes (m.evict g) files g .evict := by
  rw [Undergoes, Change.apply]
  funext h
  change ((m.guilds.erase g).get? h).map _ = _
  rw [Table.get?_erase]
  by_cases hne : h = g
  · subst hne
    rw [if_pos rfl, Function.update_self]
    rfl
  · rw [if_neg (Ne.symm hne), Function.update_of_ne hne]
    rfl

/-- Valid modules merge into a valid access vector, so they fail to merge only in conflict. -/
theorem Valid.compileAll_fst (hm : m.Valid) (now : Nat) (files : Files) (g : Uuid) :
    (m.compileAll now files g).1 =
      (AccessVector.build (m.shown files g)).mapError PolicyError.conflict := by
  have hbuild : (m.resident now files g).1.modules.build =
      (AccessVector.build (m.shown files g)).mapError PolicyError.conflict := by
    rw [← (m.resident_shows now files g).1, ModuleSet.build]
    cases AccessVector.build (m.resident now files g).1.modules.values with
    | ok v | error c => rfl
  rw [← hbuild, compileAll]
  dsimp only
  cases hb : (m.resident now files g).1.modules.build with
  | error e => rfl
  | ok v =>
    have hok := v.validate_eq_ok_iff.2 ((hm.resident now files g).modules.build hb)
    dsimp only
    rw [hok]

theorem resident_due (m : Manager) (now : Nat) (files : Files) (g : Uuid) :
    (m.resident now files g).2.due = m.due := by
  rw [resident, restore]
  cases m.guilds.get? g with
  | some state => rfl
  | none =>
    cases m.snapshot? files g with
    | none | some s => rfl

/-- What was merged is current until it expires, and nothing was made current after it. -/
theorem compileAll_current {v : AccessVector} (h : (m.compileAll now files g).1 = .ok v) :
    (m.compileAll now files g).2.due = m.due ∧
      ∀ soon detached, soon - now < m.cache.lifetime →
        ∃ p, ((m.compileAll now files g).2.current soon detached g).1 = some p ∧ p.vector = v ∧
          p.serial + 1 = (m.compileAll now files g).2.nextSerial := by
  have hdue := m.resident_due now files g
  have hlifetime := (m.resident_moves .blank now files g).moves.lifetime
  rw [compileAll] at h ⊢
  dsimp only at h ⊢
  cases hb : (m.resident now files g).1.modules.build with
  | error e =>
    rw [hb] at h
    cases h
  | ok w =>
    simp only [hb] at h ⊢
    cases hw : w.validate with
    | error e =>
      rw [hw] at h
      cases h
    | ok =>
      rw [hw] at h
      cases h
      refine ⟨hdue, fun soon detached hsoon => ?_⟩
      rw [current_fst]
      exact ⟨_, IdleCache.get_insert_self (hlifetime.symm ▸ hsoon), rfl, rfl⟩

theorem loaded_store (m : Manager) (now : Nat) (files : Files) (g : Uuid) (path : String) :
    (m.store now files g path).2.1.loaded = m.loaded := by
  rw [store_eq, toStore]
  cases m.guilds.get? g with
  | none => rfl
  | some state => exact loaded_of_guilds rebuild_guilds

theorem loaded_storeGuild (m : Manager) (now : Nat) (files : Files) (g : Uuid) :
    (m.storeGuild now files g).2.1.loaded = m.loaded := by
  rw [storeGuild]
  cases m.config.snapshotPath? g with
  | none => rfl
  | some path => exact m.loaded_store now files g path

theorem guilds_current : (m.current now detached g).2.guilds = m.guilds := by
  rw [current]
  split
  · next h => exact congrArg (·.2.guilds) h.symm
  · next h =>
    have hsame := congrArg (·.2.guilds) h.symm
    split
    · exact hsame
    · split
      · exact hsame
      · exact hsame

theorem guilds_settle : (m.settle now).guilds = m.guilds := by
  have hfold (gs : List Uuid) (m : Manager) : (gs.foldl (settleGuild now) m).guilds = m.guilds := by
    induction gs generalizing m with
    | nil => rfl
    | cons g gs ih =>
      rw [List.foldl_cons, ih, settleGuild]
      split
      · rfl
      · exact rebuild_guilds
  exact hfold m.due { m with due := [] }

end Manager

end GuildPolicy
