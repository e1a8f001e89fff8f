import GuildPolicy.Proofs.Guild.Ledger

namespace GuildPolicy

namespace Manager

/-- Everything held has a number that was given out. -/
def Numbered (m : Manager) : Prop := ∀ g p, m.held g = some p → p.serial < m.nextSerial

/-- What a manager came to: whatever it holds was held before or has a number that was given out
since. -/
structure Later (m m' : Manager) : Prop where
  serial : m.nextSerial ≤ m'.nextSerial
  held : ∀ g p, m'.held g = some p →
    m.held g = some p ∨ m.nextSerial ≤ p.serial ∧ p.serial < m'.nextSerial

theorem numbered_make (config : Config) : (make config).Numbered := nofun

namespace Later

variable {m m' m'' : Manager} {g : Uuid} {p p' : Published}

theorem of_held (hserial : m'.nextSerial = m.nextSerial)
    (h : ∀ g p, m'.held g = some p → m.held g = some p) : m.Later m' :=
  ⟨Nat.le_of_eq hserial.symm, fun g p hp => .inl (h g p hp)⟩

theorem refl (m : Manager) : m.Later m := of_held rfl fun _ _ hp => hp

theorem trans (h : m.Later m') (h' : m'.Later m'') : m.Later m'' := by
  refine ⟨Nat.le_trans h.serial h'.serial, fun g p hp => ?_⟩
  rcases h'.held g p hp with hp' | ⟨hle, hlt⟩
  · rcases h.held g p hp' with hp'' | ⟨hle, hlt⟩
    · exact .inl hp''
    · exact .inr ⟨hle, Nat.lt_of_lt_of_le hlt h'.serial⟩
  · exact .inr ⟨Nat.le_trans h.serial hle, hlt⟩

theorem publish (m : Manager) (now : Nat) (g : Uuid) (v : AccessVector) :
    m.Later (m.publish now g v) := by
  refine ⟨Nat.le_succ _, fun h p hp => ?_⟩
  by_cases hne : h = g
  · subst hne
    rw [held_publish_self] at hp
    cases hp
    exact .inr ⟨Nat.le_refl _, Nat.lt_succ_self _⟩
  · exact .inl (held_of_held_publish hne hp)

theorem numbered (h : m.Later m') (hm : m.Numbered) : m'.Numbered := by
  intro g p hp
  rcases h.held g p hp with hp' | ⟨_, hlt⟩
  · exact Nat.lt_of_lt_of_le (hm g p hp') h.serial
  · exact hlt

/-- What is held under the number of what was held before is what was held before. -/
theorem eq_of_serial (h : m.Later m') (hm : m.Numbered) (hp : m.held g = some p)
    (hp' : m'.held g = some p') (hserial : p'.serial = p.serial) : p' = p := by
  rcases h.held g p' hp' with hp'' | ⟨hle, _⟩
  · rw [hp] at hp''
    exact (Option.some.inj hp'').symm
  · have hlt := hm g p hp
    omega

end Later

theorem held_of_held_remove {m : Manager} {g h : Uuid} {p : Published}
    (hp : (m.cache.remove g).2.peek h = some p) : m.held h = some p := by
  by_cases hne : h = g
  · rw [hne, IdleCache.peek_remove_self] at hp
    cases hp
  · rwa [IdleCache.peek_remove_of_ne (Ne.symm hne)] at hp

end Manager

section Moves

variable {files : Files} {g : Uuid} {m m' : Manager} {L L' : Ledger}

open Manager

theorem Move.later (hm : Move files g (m, L) (m', L')) : m.Later m' := by
  cases hm with
  | read => exact .of_held rfl fun _ _ => held_of_held_cached
  | rebuild => exact .publish _ _ g _
  | @merge _ state _ _ _ _ hb =>
    have hm : m.Later { m with guilds := m.guilds.insert g ⟨state.modules, some state.modules⟩ } :=
      .of_held rfl fun _ _ hp => hp
    exact hm.trans (.publish _ _ g _)
  | @install s =>
    have hm : m.Later { m with guilds := m.guilds.insert g (.restored s.modules) } :=
      .of_held rfl fun _ _ hp => hp
    exact hm.trans (.publish _ _ g _)
  | enter | edit | schedule => exact .of_held rfl fun _ _ hp => hp
  | reset | evict => exact .of_held rfl fun _ _ => held_of_held_remove

theorem Moves.later {a b : Manager × Ledger} (hm : Moves files a b) : a.1.Later b.1 := by
  induction hm with
  | refl => exact .refl _
  | tail _ hm ih =>
    obtain ⟨g, hm⟩ := hm
    exact ih.trans hm.later

end Moves

end GuildPolicy
