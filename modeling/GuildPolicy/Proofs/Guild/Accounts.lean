import GuildPolicy.Proofs.Guild.Operations

namespace GuildPolicy

/-- What is resident, what is in force and what is held of one guild belong together. -/
inductive Accounted : Option GuildState → Option InForce → Option Published → Prop
  | absent : Accounted none none none
  | unmerged (modules : ModuleSet) : Accounted (some ⟨modules, none⟩) none none
  | inForce {modules ms : ModuleSet} {f : InForce} {held : Option Published} (hf : f.From ms)
      (hh : ∀ p, held = some p → p.vector = f.vector ∨ ms.build = .ok p.vector) :
      Accounted (some ⟨modules, some ms⟩) (some f) held

theorem Accounted.lose {state : Option GuildState} {f : Option InForce}
    {held held' : Option Published} (h : Accounted state f held)
    (hh : ∀ p, held' = some p → held = some p) : Accounted state f held' := by
  have hnone : held = none → held' = none := by
    intro hn
    cases held' with
    | none => rfl
    | some p => exact absurd (hh p rfl) (by rw [hn]; exact nofun)
  cases h with
  | absent => exact hnone rfl ▸ .absent
  | unmerged modules => exact hnone rfl ▸ .unmerged modules
  | inForce hf hp => exact .inForce hf fun p hp' => hp p (hh p hp')

def Ledger.Accounts (L : Ledger) (m : Manager) : Prop :=
  ∀ g, Accounted (m.guilds.get? g) (L g) (m.held g)

theorem Ledger.accounts_make (config : Config) : Ledger.blank.Accounts (.make config) :=
  fun _ => .absent

theorem Ledger.Accounts.merged {L : Ledger} {m : Manager} {g : Uuid} {state : GuildState}
    {ms : ModuleSet} (h : L.Accounts m) (hs : m.guilds.get? g = some state)
    (hm : state.merged = some ms) : ∃ f, L g = some f ∧ f.From ms ∧
      ∀ p, m.held g = some p → p.vector = f.vector ∨ ms.build = .ok p.vector := by
  have hg := h g
  rw [hs] at hg
  generalize hL : L g = f at hg
  generalize hp : m.held g = held at hg
  cases hg with
  | unmerged modules => cases hm
  | inForce hf hh =>
    cases hm
    exact ⟨_, rfl, hf, hh⟩

theorem Ledger.Accounts.resident {L : Ledger} {m : Manager} {g : Uuid} {f : InForce}
    (h : L.Accounts m) (hL : L g = some f) : ∃ modules ms,
      m.guilds.get? g = some ⟨modules, some ms⟩ ∧ f.From ms ∧
        ∀ p, m.held g = some p → p.vector = f.vector ∨ ms.build = .ok p.vector := by
  have hg := h g
  rw [hL] at hg
  generalize hs : m.guilds.get? g = state at hg
  generalize hp : m.held g = held at hg
  cases hg with
  | inForce hf hh => exact ⟨_, _, rfl, hf, hh⟩

/-- What is held was merged, or it is the access vector of a snapshot that is in force. -/
theorem Ledger.Accounts.held {L : Ledger} {m : Manager} {g : Uuid} {p : Published}
    (h : L.Accounts m) (hp : m.held g = some p) : ∃ f, L g = some f ∧
      ((∃ ms : ModuleSet, ms.build = .ok p.vector) ∨
        ∃ s, f = .installed s ∧ p.vector = s.vector) := by
  have hg := h g
  rw [hp] at hg
  generalize hs : m.guilds.get? g = state at hg
  generalize hL : L g = f at hg
  cases hg with
  | @inForce _ ms f _ hf hh =>
    refine ⟨f, rfl, ?_⟩
    rcases hh p rfl with he | hb
    · cases f with
      | merged v => exact .inl ⟨ms, he ▸ hf⟩
      | installed s => exact .inr ⟨s, rfl, he⟩
    · exact .inl ⟨ms, hb⟩

theorem Ledger.Accounts.held_of_cold {L : Ledger} {m : Manager} {g : Uuid} (h : L.Accounts m)
    (hcold : m.guilds.get? g = none) : m.held g = none := by
  have hg := h g
  rw [hcold] at hg
  generalize hL : L g = f at hg
  generalize hp : m.held g = held at hg
  cases hg
  rfl

section Moves

variable {files : Files} {g : Uuid} {m m' : Manager} {L L' : Ledger}

theorem Move.accounted (hm : Move files g (m, L) (m', L')) (h : L.Accounts m) :
    Accounted (m'.guilds.get? g) (L' g) (m'.held g) := by
  cases hm with
  | read => exact (h g).lose fun p => held_of_held_cached
  -- What is merged again need not be what is in force, but it comes from the modules behind it.
  | @rebuild _ state ms v _ now hs hmerged hb =>
    obtain ⟨f, hL, hf, _⟩ := h.merged hs hmerged
    obtain ⟨modules, merged⟩ := state
    cases hmerged
    rw [held_publish_self, hL]
    change Accounted (m.guilds.get? g) _ _
    rw [hs]
    refine .inForce hf fun p hp => ?_
    cases hp
    exact .inr hb
  | enter _ hs =>
    have hg := h g
    rw [hs] at hg
    rw [Table.get?_insert_self]
    change Accounted _ _ (m.held g)
    generalize L g = f at hg ⊢
    generalize m.held g = held at hg ⊢
    cases hg
    exact .unmerged _
  | @edit _ state modules _ hs _ =>
    have hg := h g
    rw [hs] at hg
    rw [Table.get?_insert_self]
    change Accounted _ _ (m.held g)
    generalize L g = f at hg ⊢
    generalize m.held g = held at hg ⊢
    cases hg with
    | unmerged => exact .unmerged _
    | inForce hf hh => exact .inForce hf hh
  | @merge _ state v _ now hs hb =>
    rw [held_publish_self, Ledger.record_self]
    change Accounted ((m.guilds.insert g _).get? g) _ _
    rw [Table.get?_insert_self]
    refine .inForce hb fun p hp => ?_
    cases hp
    exact .inl rfl
  | @install s _ _ _ now hr =>
    rw [Ledger.record_self]
    change Accounted ((m.guilds.insert g _).get? g) _ (Manager.held (Manager.publish _ now g _) g)
    rw [Table.get?_insert_self, held_publish_self]
    refine .inForce rfl fun p hp => ?_
    cases hp
    exact .inl rfl
  | reset =>
    rw [Ledger.record_self]
    change Accounted ((m.guilds.insert g _).get? g) _ ((m.cache.remove g).2.peek g)
    rw [Table.get?_insert_self, IdleCache.peek_remove_self]
    exact .unmerged _
  | evict =>
    rw [Ledger.record_self]
    change Accounted ((m.guilds.erase g).get? g) _ ((m.cache.remove g).2.peek g)
    rw [Table.get?_erase, if_pos rfl, IdleCache.peek_remove_self]
    exact .absent
  | schedule => exact h g

theorem Move.accounts (hm : Move files g (m, L) (m', L')) (h : L.Accounts m) : L'.Accounts m' := by
  intro g'
  by_cases hne : g' = g
  · subst hne
    exact hm.accounted h
  · obtain ⟨hs, hL, hp⟩ := hm.elsewhere hne
    rw [hs, hL]
    exact (h g').lose hp

theorem Moves.accounts {a b : Manager × Ledger} (hm : Moves files a b) (h : a.2.Accounts a.1) :
    b.2.Accounts b.1 := by
  induction hm with
  | refl => exact h
  | tail _ hm ih =>
    obtain ⟨g, hm⟩ := hm
    exact hm.accounts ih

end Moves

end GuildPolicy
