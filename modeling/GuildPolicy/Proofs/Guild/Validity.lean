import GuildPolicy.Proofs.AccessVector.Validity
import GuildPolicy.Proofs.Guild.Lookups
import GuildPolicy.Proofs.Guild.Operations
import GuildPolicy.Proofs.Guild.Serials

namespace GuildPolicy

/-- Valid modules under their own names. -/
def ModuleSet.Valid (ms : ModuleSet) : Prop :=
  ∀ e ∈ ms.entries, GuildSnapshot.validateEntry e = .ok ()

theorem ModuleSet.Valid.validate {ms : ModuleSet} (h : ms.Valid) :
    ∀ m ∈ ms.values, m.validate = .ok () := by
  intro m hm
  obtain ⟨e, he, rfl⟩ := List.mem_map.1 hm
  obtain ⟨_, hvalid, _⟩ := bind_eq_ok_iff.1 (h e he)
  exact hvalid

/-- Only types in conflict keep valid modules from merging. -/
theorem ModuleSet.Valid.build {ms : ModuleSet} (h : ms.Valid) {v : AccessVector}
    (hb : ms.build = .ok v) : v.Valid := by
  rw [ModuleSet.build] at hb
  split at hb
  · next hb' =>
    cases hb
    exact AccessVector.valid_of_build h.validate hb'
  · cases hb

namespace GuildSnapshot

variable {s : GuildSnapshot}

theorem forM_eq_ok_iff {α : Type} {f : α → Except PolicyError Unit} {l : List α} :
    l.forM f = .ok () ↔ ∀ a ∈ l, f a = .ok () := by
  induction l with
  | nil => exact ⟨fun _ => nofun, fun _ => rfl⟩
  | cons a l ih =>
    change (f a >>= fun _ => l.forM f) = _ ↔ _
    rw [bind_eq_ok_iff, List.forall_mem_cons, ← ih]
    constructor
    · rintro ⟨_, ha, hl⟩
      exact ⟨ha, hl⟩
    · rintro ⟨ha, hl⟩
      exact ⟨(), ha, hl⟩

theorem validate_eq_ok_iff : s.validate = .ok () ↔ s.vector.Valid ∧ ModuleSet.Valid s.modules := by
  rw [validate, bind_eq_ok_iff, forM_eq_ok_iff, ← AccessVector.validate_eq_ok_iff]
  constructor
  · rintro ⟨_, hv, hms⟩
    exact ⟨hv, hms⟩
  · rintro ⟨hv, hms⟩
    exact ⟨(), hv, hms⟩

end GuildSnapshot

theorem validate_of_readGuildFile {files : Files} {path : String} {s : GuildSnapshot}
    (h : readGuildFile files path = .ok s) : s.validate = .ok () := by
  rw [readGuildFile] at h
  split at h
  · cases h
  · split at h
    · next hd =>
      cases h
      rw [decodeGuild, bind_eq_ok_iff] at hd
      obtain ⟨s', _, hd⟩ := hd
      obtain ⟨_, hv, hs⟩ := bind_eq_ok_iff.1 hd
      cases hs
      exact hv
    · cases h

structure GuildState.Valid (state : GuildState) : Prop where
  modules : state.modules.Valid
  merged : ∀ ms, state.merged = some ms → ms.Valid

/-- Whatever is resident and whatever is in the cache is valid. -/
structure Manager.Valid (m : Manager) : Prop where
  state : ∀ g state, m.guilds.get? g = some state → state.Valid
  held : ∀ g p, m.held g = some p → p.vector.Valid

namespace Manager

variable {m m' : Manager} {files : Files} {g : Uuid} {state : GuildState} {v : AccessVector}
variable {now : Nat}

theorem valid_make (config : Config) : (make config).Valid := ⟨nofun, nofun⟩

theorem Valid.insert (h : m.Valid) (hs : state.Valid) :
    Valid { m with guilds := m.guilds.insert g state } := by
  refine ⟨fun h' state' hs' => ?_, h.held⟩
  change (m.guilds.insert g state).get? h' = _ at hs'
  rw [Table.get?_insert] at hs'
  split at hs'
  · cases hs'
    exact hs
  · exact h.state h' state' hs'

theorem Valid.publish (h : m.Valid) (hv : v.Valid) : (m.publish now g v).Valid := by
  refine ⟨h.state, fun h' p hp => ?_⟩
  by_cases hne : h' = g
  · subst hne
    rw [held_publish_self] at hp
    cases hp
    exact hv
  · exact h.held h' p (held_of_held_publish hne hp)

end Manager

section Moves

variable {files : Files} {g : Uuid} {m m' : Manager} {L L' : Ledger}

open Manager

theorem Move.valid (hm : Move files g (m, L) (m', L')) (h : m.Valid) : m'.Valid := by
  cases hm with
  | read => exact ⟨h.state, fun g' p hp => h.held g' p (held_of_held_cached hp)⟩
  | rebuild _ _ hs hms hb => exact h.publish (((h.state _ _ hs).merged _ hms).build hb)
  | enter => exact h.insert ⟨nofun, nofun⟩
  | edit _ hs hv =>
    have hstate := h.state _ _ hs
    refine h.insert ⟨fun e he => ?_, hstate.merged⟩
    rcases hv e he with he | he
    · exact hstate.modules e he
    · exact he
  | @merge _ state _ _ _ hs hb =>
    have hstate := h.state _ _ hs
    have hmerged : (GuildState.mk state.modules (some state.modules)).Valid :=
      ⟨hstate.modules, fun _ hms => Option.some.inj hms ▸ hstate.modules⟩
    exact (h.insert hmerged).publish (hstate.modules.build hb)
  | @install s _ _ _ _ hr =>
    obtain ⟨hv, hms⟩ := GuildSnapshot.validate_eq_ok_iff.1 (validate_of_readGuildFile hr)
    have hrestored : (GuildState.restored s.modules).Valid :=
      ⟨hms, fun _ hms' => Option.some.inj hms' ▸ hms⟩
    exact (h.insert hrestored).publish hv
  | reset =>
    have hblank : GuildState.blank.Valid := ⟨nofun, nofun⟩
    exact ⟨(h.insert hblank).state, fun g' p hp => h.held g' p (held_of_held_remove hp)⟩
  | evict =>
    refine ⟨fun g' state hs => ?_, fun g' p hp => h.held g' p (held_of_held_remove hp)⟩
    change (m.guilds.erase g).get? g' = _ at hs
    rw [Table.get?_erase] at hs
    split at hs
    · cases hs
    · exact h.state g' state hs
  | schedule => exact ⟨h.state, h.held⟩

theorem Moves.valid {a b : Manager × Ledger} (hm : Moves files a b) (h : a.1.Valid) :
    b.1.Valid := by
  induction hm with
  | refl => exact h
  | tail _ hm ih =>
    obtain ⟨g, hm⟩ := hm
    exact hm.valid ih

end Moves

namespace Manager

variable {m : Manager} {g : Uuid} {state : GuildState} {v : AccessVector} {now : Nat}

/-- What merging again gives was held, or comes from the modules that were last merged. -/
theorem source_of_rebuild (h : (m.rebuild now g state).1 = some v) :
    (∃ p, m.held g = some p ∧ v = p.vector) ∨
      ∃ ms, state.merged = some ms ∧ ms.build = .ok v := by
  rw [rebuild] at h
  split at h
  · next p m₁ hc =>
    cases h
    exact .inl ⟨p, held_of_cached (congrArg Prod.fst hc), rfl⟩
  · split at h
    · cases h
    · next ms hms =>
      split at h
      · next hb =>
        cases h
        exact .inr ⟨ms, hms, hb⟩
      · cases h

theorem Valid.rebuild (h : m.Valid) (hs : m.guilds.get? g = some state)
    (hv : (m.rebuild now g state).1 = some v) : v.Valid := by
  rcases source_of_rebuild hv with ⟨p, hp, rfl⟩ | ⟨ms, hms, hb⟩
  · exact h.held g p hp
  · exact ((h.state g state hs).merged ms hms).build hb

theorem Valid.toStore (h : m.Valid) (now : Nat) (g : Uuid) :
    (m.toStore now g).1.validate = .ok () := by
  rw [GuildSnapshot.validate_eq_ok_iff, Manager.toStore]
  cases hs : m.guilds.get? g with
  | none => exact ⟨Merge.Sound.empty.valid, List.forall_mem_nil _⟩
  | some state =>
    refine ⟨?_, (h.state g state hs).modules⟩
    dsimp only
    cases hv : (m.rebuild now g state).1 with
    | none => exact Merge.Sound.empty.valid
    | some v => exact h.rebuild hs hv

end Manager

end GuildPolicy
