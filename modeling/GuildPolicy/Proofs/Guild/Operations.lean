import GuildPolicy.Proofs.Guild.Ledger

namespace GuildPolicy

namespace Ledger

/-- What is in force once a guild has been touched: a guild that is not resident is restored from
its snapshot if there is one. -/
def touch (L : Ledger) (m : Manager) (files : Files) (g : Uuid) : Ledger :=
  match m.guilds.get? g, m.snapshot? files g with
  | none, some s => L.record g (some (.installed s))
  | _, _ => L

def ask (L : Ledger) (m : Manager) (now : Nat) (files : Files) (g : Uuid) : Ledger :=
  match (m.cached now g).1 with
  | some _ => L
  | none => L.touch m files g

def load (L : Ledger) (m : Manager) (files : Files) (g : Uuid) (module : PolicyModule) : Ledger :=
  match module.validate with
  | .ok () => L.touch m files g
  | .error _ => L

def loadFile (L : Ledger) (m : Manager) (files : Files) (g : Uuid) (path : String) : Ledger :=
  match readModuleFile files path with
  | .ok module => L.load m files g module
  | .error _ => L

def compile (L : Ledger) (m : Manager) (now : Nat) (files : Files) (g : Uuid) : Ledger :=
  match (m.compileAll now files g).1 with
  | .ok v => L.record g (some (.merged v))
  | .error _ => L.touch m files g

def install (L : Ledger) (files : Files) (g : Uuid) (path : String) : Ledger :=
  match readGuildFile files path with
  | .ok s => L.record g (some (.installed s))
  | .error _ => L

def installKept (L : Ledger) (m : Manager) (files : Files) (g : Uuid) : Ledger :=
  match m.config.snapshotPath? g with
  | some path => L.install files g path
  | none => L

theorem record_touch (L : Ledger) (m : Manager) (files : Files) (g : Uuid) (f : Option InForce) :
    (L.touch m files g).record g f = L.record g f := by
  rw [touch]
  split
  · exact Function.update_idem _ _ _
  · rfl

end Ledger

namespace Manager

variable (m : Manager) (L : Ledger) (now : Nat) (files : Files) (g : Uuid)

theorem cached_moves : MovesOf files g (m, L) ((m.cached now g).2, L) :=
  .single (.read m L now)

theorem restore_moves : MovesOf files g (m, L) ((m.restore now files g).2, L.touch m files g) := by
  rw [restore, Ledger.touch]
  cases m.guilds.get? g with
  | some state => exact .refl
  | none =>
    cases hs : m.snapshot? files g with
    | none => exact .refl
    | some s =>
      rw [snapshot?, Option.bind_eq_some_iff] at hs
      obtain ⟨path, _, hr⟩ := hs
      have hr' : readGuildFile files path = .ok s := by
        cases hf : readGuildFile files path with
        | ok s' =>
          rw [hf] at hr
          cases hr
          rfl
        | error e =>
          rw [hf] at hr
          cases hr
      exact .single (.install m L now hr')

theorem guilds_of_restore {m m' : Manager} {now : Nat} {files : Files} {g : Uuid}
    {state : GuildState} (h : m.restore now files g = (some state, m')) :
    m'.guilds.get? g = some state := by
  rw [restore] at h
  split at h
  · next hs =>
    cases h
    exact hs
  · split at h
    · cases h
    · cases h
      exact Table.get?_insert_self _ _ _

theorem guilds_of_restore_none {m m' : Manager} {now : Nat} {files : Files} {g : Uuid}
    (h : m.restore now files g = (none, m')) : m' = m ∧ m.guilds.get? g = none := by
  rw [restore] at h
  split at h
  · cases h
  · next hs =>
    split at h
    · cases h
      exact ⟨rfl, hs⟩
    · cases h

theorem resident_moves :
    MovesOf files g (m, L) ((m.resident now files g).2, L.touch m files g) := by
  have hm := m.restore_moves L now files g
  rw [resident]
  split
  · next h =>
    rw [h] at hm
    exact hm
  · next h =>
    rw [h] at hm
    obtain ⟨rfl, hs⟩ := guilds_of_restore_none h
    exact hm.tail (.enter _ hs)

theorem guilds_resident :
    (m.resident now files g).2.guilds.get? g = some (m.resident now files g).1 := by
  rw [resident]
  split
  · next h => exact guilds_of_restore h
  · exact Table.get?_insert_self _ _ _

theorem rebuild_moves {m : Manager} {state : GuildState} (hs : m.guilds.get? g = some state) :
    MovesOf files g (m, L) ((m.rebuild now g state).2, L) := by
  have hm := m.cached_moves L now files g
  rw [rebuild]
  split
  · next h =>
    rw [h] at hm
    exact hm
  · next m₁ h =>
    rw [h] at hm
    have hs₁ : m₁.guilds.get? g = some state := by
      have : m₁.guilds = m.guilds := congrArg (·.2.guilds) h.symm
      rw [this, hs]
    cases hms : state.merged with
    | none => exact hm
    | some ms =>
      dsimp only
      split
      · next hb => exact hm.tail (.rebuild L now hs₁ hms hb)
      · exact hm

theorem vectorOf_moves :
    MovesOf files g (m, L) ((m.vectorOf now files g).2, L.ask m now files g) := by
  have hm := m.cached_moves L now files g
  rw [vectorOf, Ledger.ask]
  cases h : m.cached now g with
  | mk found m₁ =>
    rw [h] at hm
    cases found with
    | some p => exact hm
    | none =>
      have ht : L.touch m₁ files g = L.touch m files g := by
        have : m₁ = { m with cache := (m.cache.get now g).2 } := congrArg Prod.snd h.symm
        rw [this]
        rfl
      have hm₁ := m₁.restore_moves L now files g
      rw [ht] at hm₁
      dsimp only
      cases h₁ : m₁.restore now files g with
      | mk found₁ m₂ =>
        rw [h₁] at hm₁
        cases found₁ with
        | none => exact hm.trans hm₁
        | some state =>
          exact (hm.trans hm₁).trans (rebuild_moves _ now files g (guilds_of_restore h₁))

theorem load_moves (module : PolicyModule) :
    MovesOf files g (m, L) ((m.load now files g module).2, L.load m files g module) := by
  rw [load, Ledger.load]
  cases hvalid : module.validate with
  | error e => exact .refl
  | ok =>
    have hm := m.resident_moves L now files g
    have hs := m.guilds_resident now files g
    refine hm.tail (.edit _ hs fun e he => ?_)
    rcases Table.mem_entries_insert he with rfl | he
    · refine .inr ?_
      rw [GuildSnapshot.validateEntry, hvalid]
      exact if_pos rfl
    · exact .inl he

theorem unload_moves (name : String) :
    MovesOf files g (m, L) ((m.unload now files g name).2, L.touch m files g) := by
  have hm := m.restore_moves L now files g
  rw [unload]
  split
  · next h =>
    rw [h] at hm
    exact hm
  · next h =>
    rw [h] at hm
    exact hm.tail (.edit _ (guilds_of_restore h) fun e he => .inl (List.mem_filter.1 he).1)

theorem modulesOf_moves :
    MovesOf files g (m, L) ((m.modulesOf now files g).2, L.touch m files g) := by
  have hm := m.restore_moves L now files g
  rw [modulesOf]
  split
  · next h =>
    rw [h] at hm
    exact hm
  · next h =>
    rw [h] at hm
    exact hm

theorem loadFile_moves (path : String) :
    MovesOf files g (m, L) ((m.loadFile now files g path).2, L.loadFile m files g path) := by
  rw [loadFile, Ledger.loadFile]
  cases readModuleFile files path with
  | error e => exact .refl
  | ok module => exact m.load_moves L now files g module

theorem compileAll_moves :
    MovesOf files g (m, L) ((m.compileAll now files g).2, L.compile m now files g) := by
  have hm := m.resident_moves L now files g
  have hs := m.guilds_resident now files g
  rw [Ledger.compile, compileAll]
  cases h : m.resident now files g with
  | mk state m₁ =>
    rw [h] at hm hs
    dsimp only
    cases hb : state.modules.build with
    | error e => exact hm
    | ok v =>
      dsimp only
      cases v.validate with
      | error e => exact hm
      | ok =>
        dsimp only
        rw [← Ledger.record_touch L m files g]
        exact hm.tail (.merge _ now hs hb)

/-- The snapshot that is written for a guild, and the manager that wrote it. -/
def toStore (m : Manager) (now : Nat) (g : Uuid) : GuildSnapshot × Manager :=
  match m.guilds.get? g with
  | none => (.blank, m)
  | some state => (⟨(m.rebuild now g state).1.getD .empty, state.modules⟩, (m.rebuild now g state).2)

theorem store_eq (path : String) :
    m.store now files g path =
      ((files.replace path (encodeGuild (m.toStore now g).1)).2, (m.toStore now g).2,
        (files.replace path (encodeGuild (m.toStore now g).1)).1) := by
  unfold store toStore
  cases m.guilds.get? g with
  | none => rfl
  | some state => rfl

theorem storeGuild_eq {m : Manager} {now : Nat} {files : Files} {g : Uuid} {path : String}
    (hpath : m.config.snapshotPath? g = some path) :
    m.storeGuild now files g =
      ((fun _ => true) <$> (files.replace path (encodeGuild (m.toStore now g).1)).2,
        (m.toStore now g).2, (files.replace path (encodeGuild (m.toStore now g).1)).1) := by
  rw [storeGuild, hpath]
  dsimp only
  rw [store_eq]

theorem toStore_moves : MovesOf files g (m, L) ((m.toStore now g).2, L) := by
  rw [toStore]
  cases hs : m.guilds.get? g with
  | none => exact .refl
  | some state => exact rebuild_moves L now files g hs

theorem store_moves (path : String) :
    MovesOf files g (m, L) ((m.store now files g path).2.1, L) := by
  rw [store_eq]
  exact m.toStore_moves L now files g

theorem storeGuild_moves : MovesOf files g (m, L) ((m.storeGuild now files g).2.1, L) := by
  rw [storeGuild]
  cases m.config.snapshotPath? g with
  | none => exact .refl
  | some path => exact m.store_moves L now files g path

theorem loadVector_moves (path : String) :
    MovesOf files g (m, L) ((m.loadVector now files g path).2, L.install files g path) := by
  rw [loadVector, Ledger.install]
  cases hr : readGuildFile files path with
  | error e => exact .refl
  | ok s => exact .single (.install m L now hr)

theorem loadGuild_moves :
    MovesOf files g (m, L) ((m.loadGuild now files g).2, L.installKept m files g) := by
  rw [loadGuild, Ledger.installKept]
  cases m.config.snapshotPath? g with
  | none => exact .refl
  | some path => exact m.loadVector_moves L now files g path

theorem current_moves (detached : Bool) :
    MovesOf files g (m, L) ((m.current now detached g).2, L) := by
  have hm := m.cached_moves L now files g
  rw [current]
  cases h : m.cached now g with
  | mk found m₁ =>
    rw [h] at hm
    cases found with
    | some p => exact hm
    | none =>
      dsimp only
      split
      · exact hm
      · split
        · exact hm.tail (.schedule _ fun h hh => (List.mem_cons.1 hh))
        · exact hm

theorem settleGuild_moves : MovesOf files g (m, L) (settleGuild now m g, L) := by
  rw [settleGuild]
  cases hs : m.guilds.get? g with
  | none => exact .refl
  | some state => exact rebuild_moves L now files g hs

theorem settle_moves_of (hdue : ∀ h ∈ m.due, h = g) : MovesOf files g (m, L) (m.settle now, L) := by
  have hfold (gs : List Uuid) (hgs : ∀ h ∈ gs, h = g) (m : Manager) :
      MovesOf files g (m, L) (gs.foldl (settleGuild now) m, L) := by
    induction gs generalizing m with
    | nil => exact .refl
    | cons h gs ih =>
      obtain ⟨rfl, hgs⟩ := List.forall_mem_cons.1 hgs
      exact (m.settleGuild_moves L now files h).trans (ih hgs _)
  exact .head (.schedule L (List.forall_mem_nil _)) (hfold m.due hdue _)

theorem settle_moves : Moves files (m, L) (m.settle now, L) := by
  have hfold (gs : List Uuid) (m : Manager) :
      Moves files (m, L) (gs.foldl (settleGuild now) m, L) := by
    induction gs generalizing m with
    | nil => exact .refl
    | cons g gs ih => exact (m.settleGuild_moves L now files g).moves.trans (ih _)
  exact .head ⟨0, .schedule L (List.forall_mem_nil _)⟩ (hfold m.due _)

end Manager

end GuildPolicy
