import GuildPolicy.Proofs.Guild.Accounts
import GuildPolicy.Proofs.Guild.Lookups

namespace GuildPolicy

namespace Manager

/-- The cache has nothing to give for a guild, because it never held anything or lost it. -/
def Lost (m : Manager) (now : Nat) (g : Uuid) : Prop := (m.cached now g).1 = none

instance (m : Manager) (now : Nat) (g : Uuid) : Decidable (m.Lost now g) :=
  inferInstanceAs (Decidable (_ = _))

variable {m : Manager} {now : Nat} {files : Files} {g : Uuid} {state : GuildState} {ms : ModuleSet}

theorem Lost.cached (h : m.Lost now g) : m.cached now g = (none, (m.cached now g).2) :=
  Prod.ext h rfl

theorem Lost.held (h : m.Lost now g) : (m.cached now g).2.held g = none :=
  IdleCache.peek_get_self.trans h

theorem lost_of_held (h : m.held g = none) : m.Lost now g := by
  rw [Lost, Manager.cached, IdleCache.get_of_peek_eq_none h]

theorem Lost.again (h : m.Lost now g) : (m.cached now g).2.Lost now g := lost_of_held h.held

/-- An access vector that was lost is merged again from the modules that it was last merged from. -/
theorem Lost.rebuild (h : m.Lost now g) (hm : state.merged = some ms) :
    (m.rebuild now g state).1 = ms.build.toOption ∧
      ((m.rebuild now g state).2.held g).map Published.vector = ms.build.toOption := by
  rw [Manager.rebuild]
  rw [h.cached]
  dsimp only
  rw [hm]
  dsimp only
  cases hb : ms.build with
  | ok v =>
    rw [held_publish_self]
    exact ⟨rfl, rfl⟩
  | error e =>
    rw [h.held]
    exact ⟨rfl, rfl⟩

/-- What merging again gives is what is held, or what was lost merged again. -/
theorem rebuild_cases (m : Manager) (now : Nat) (g : Uuid) (hm : state.merged = some ms) :
    (∃ p, m.held g = some p ∧ (m.rebuild now g state).1 = some p.vector) ∨
      (m.rebuild now g state).1 = ms.build.toOption := by
  by_cases h : m.Lost now g
  · exact .inr (h.rebuild hm).1
  · obtain ⟨p, hp⟩ := Option.ne_none_iff_exists'.1 h
    refine .inl ⟨p, held_of_cached hp, ?_⟩
    rw [Manager.rebuild]
    rw [show m.cached now g = (some p, (m.cached now g).2) from Prod.ext hp rfl]

theorem rebuild_due : (m.rebuild now g state).2.due = m.due := by
  rw [rebuild]
  split
  · next h => exact congrArg (·.2.due) h.symm
  · next h =>
    split
    · exact congrArg (·.2.due) h.symm
    · split
      · exact congrArg (·.2.due) h.symm
      · exact congrArg (·.2.due) h.symm

theorem Lost.vectorOf (h : m.Lost now g) (hs : m.guilds.get? g = some state) :
    m.vectorOf now files g =
      (((m.cached now g).2.rebuild now g state).1.getD .empty,
        ((m.cached now g).2.rebuild now g state).2) := by
  have hr : (m.cached now g).2.restore now files g = (some state, (m.cached now g).2) := by
    have hs' : (m.cached now g).2.guilds.get? g = some state := hs
    rw [restore, hs']
  rw [Manager.vectorOf, h.cached]
  dsimp only
  rw [hr]

theorem vectorOf_cases (now : Nat) (files : Files) (hs : m.guilds.get? g = some state)
    (hm : state.merged = some ms) :
    (∃ p, m.held g = some p ∧ (m.vectorOf now files g).1 = p.vector) ∨
      (m.vectorOf now files g).1 = ms.build.toOption.getD .empty := by
  by_cases h : m.Lost now g
  · rw [h.vectorOf hs, (h.again.rebuild hm).1]
    exact .inr rfl
  · obtain ⟨p, hp⟩ := Option.ne_none_iff_exists'.1 h
    refine .inl ⟨p, held_of_cached hp, ?_⟩
    rw [vectorOf, show m.cached now g = (some p, (m.cached now g).2) from Prod.ext hp rfl]

/-- A look-up that finds nothing leaves a guild that was merged before due. -/
theorem Lost.current (h : m.Lost now g) (hs : m.guilds.get? g = some state)
    (hm : state.merged = some ms) :
    (m.current now false g).2 = { (m.cached now g).2 with due := g :: m.due } := by
  have hs' : (m.cached now g).2.guilds.get? g = some state := hs
  rw [Manager.current, h.cached]
  dsimp only
  rw [hs']
  dsimp only
  rw [if_pos (by rw [hm]; rfl)]
  rfl

theorem settle_of_idle (h : m.due = []) : m.settle now = m := by
  cases m
  cases h
  rfl

theorem Lost.settle (h : m.Lost now g) (hs : m.guilds.get? g = some state)
    (hm : state.merged = some ms) (hdue : m.due = [g]) :
    ((m.settle now).held g).map Published.vector = ms.build.toOption := by
  have hs' : Table.get? { m with due := [] }.guilds g = some state := hs
  have h' : Lost { m with due := [] } now g := h
  rw [Manager.settle, hdue, List.foldl_cons, List.foldl_nil, settleGuild, hs']
  exact (h'.rebuild hm).2

theorem settleGuild_due : (settleGuild now m g).due = m.due := by
  rw [settleGuild]
  split
  · rfl
  · exact rebuild_due

theorem settle_due : (m.settle now).due = [] := by
  have hfold (gs : List Uuid) (m : Manager) : (gs.foldl (settleGuild now) m).due = m.due := by
    induction gs generalizing m with
    | nil => rfl
    | cons g gs ih => exact (ih _).trans settleGuild_due
  exact hfold m.due _

end Manager

namespace Ledger.Accounts

variable {L : Ledger} {m : Manager} {g : Uuid} {f : InForce}

/-- If what is in force is reproducible, what is held and what is merged again say the same. -/
theorem agree (h : L.Accounts m) (hL : L g = some f) (hr : f.Reproducible) :
    ∃ modules ms v, m.guilds.get? g = some ⟨modules, some ms⟩ ∧ ms.build = .ok v ∧
      v.Agree f.vector ∧ ∀ p, m.held g = some p → p.vector.Agree f.vector := by
  obtain ⟨modules, ms, hs, hfrom, hheld⟩ := h.resident hL
  obtain ⟨v, hb, hv⟩ := hfrom.build_iff.2 hr
  refine ⟨modules, ms, v, hs, hb, hv, fun p hp => ?_⟩
  rcases hheld p hp with he | he
  · exact he ▸ .refl _
  · rw [hb] at he
    cases he
    exact hv

theorem vectorOf_agree (h : L.Accounts m) (hL : L g = some f) (hr : f.Reproducible) (now : Nat)
    (files : Files) : (m.vectorOf now files g).1.Agree f.vector := by
  obtain ⟨modules, ms, v, hs, hb, hv, hheld⟩ := h.agree hL hr
  rcases Manager.vectorOf_cases now files hs rfl with ⟨p, hp, he⟩ | he
  · rw [he]
    exact hheld p hp
  · rw [he, hb]
    exact hv

theorem toStore_agree (h : L.Accounts m) (hL : L g = some f) (hr : f.Reproducible) (now : Nat) :
    (m.toStore now g).1.vector.Agree f.vector := by
  obtain ⟨modules, ms, v, hs, hb, hv, hheld⟩ := h.agree hL hr
  have hm : (⟨modules, some ms⟩ : GuildState).merged = some ms := rfl
  rw [Manager.toStore, hs]
  change ((m.rebuild now g ⟨modules, some ms⟩).1.getD .empty).Agree f.vector
  rcases Manager.rebuild_cases m now g hm with ⟨p, hp, he⟩ | he
  · rw [he]
    exact hheld p hp
  · rw [he, hb]
    exact hv

/-- What is written is reproducible itself exactly if the modules written beside it merge into what
is in force. -/
theorem toStore_reproducible_iff (h : L.Accounts m) (hL : L g = some f) (hr : f.Reproducible)
    (now : Nat) : (InForce.installed (m.toStore now g).1).Reproducible ↔
      ∃ v, ModuleSet.build (m.toStore now g).1.modules = .ok v ∧ v.Agree f.vector := by
  have hstore := h.toStore_agree hL hr now
  constructor
  · rintro ⟨w, hw, hagree⟩
    exact ⟨w, hw, hagree.trans hstore⟩
  · rintro ⟨w, hw, hagree⟩
    exact ⟨w, hw, hagree.trans hstore.symm⟩

end Ledger.Accounts

end GuildPolicy
