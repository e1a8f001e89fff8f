import GuildPolicy.Proofs.Session.Run

namespace GuildPolicy

namespace Manager

variable {m : Manager} {now : Nat} {files : Files} {g h : Uuid} {e : PolicyError}

theorem load_of_error {module : PolicyModule}
    (he : (m.load now files g module).1 = .error e) : (m.load now files g module).2 = m := by
  rw [load] at he ⊢
  cases hv : module.validate with
  | error _ => rfl
  | ok =>
    rw [hv] at he
    cases he

theorem loadFile_of_error {path : String} (he : (m.loadFile now files g path).1 = .error e) :
    (m.loadFile now files g path).2 = m := by
  rw [loadFile] at he ⊢
  cases hr : readModuleFile files path with
  | error _ => rfl
  | ok module =>
    rw [hr] at he
    exact load_of_error he

theorem loadVector_of_error {path : String} (he : (m.loadVector now files g path).1 = .error e) :
    (m.loadVector now files g path).2 = m := by
  rw [loadVector] at he ⊢
  cases hr : readGuildFile files path with
  | error _ => rfl
  | ok s =>
    rw [hr] at he
    cases he

theorem loadGuild_of_error (he : (m.loadGuild now files g).1 = .error e) :
    (m.loadGuild now files g).2 = m := by
  rw [loadGuild] at he ⊢
  cases hp : m.config.snapshotPath? g with
  | none => rfl
  | some path =>
    rw [hp] at he
    refine loadVector_of_error (e := e) ?_
    cases hl : (m.loadVector now files g path).1 with
    | error _ =>
      simp only [hl] at he
      cases he
      rfl
    | ok =>
      simp only [hl] at he
      cases he

/-- Merging fails only because modules disagree, and then does no more than make the guild
resident. -/
theorem Valid.compileAll_of_error (hm : m.Valid)
    (he : (m.compileAll now files g).1 = .error e) :
    (m.resident now files g).1.modules.build = .error e ∧
      (m.compileAll now files g).2 = (m.resident now files g).2 := by
  have hvalid : (m.resident now files g).1.Valid :=
    ((m.resident_moves .blank now files g).moves.valid hm).state g _ (m.guilds_resident now files g)
  rw [compileAll] at he ⊢
  dsimp only at he ⊢
  cases hb : (m.resident now files g).1.modules.build with
  | error _ =>
    rw [hb] at he
    cases he
    exact ⟨rfl, rfl⟩
  | ok v =>
    have hok : v.validate = .ok () :=
      v.validate_eq_ok_iff.2 (hvalid.modules.build hb)
    simp only [hb, hok] at he
    cases he

theorem resident_cases (m : Manager) (now : Nat) (files : Files) (g : Uuid) :
    (m.resident now files g).2 = m ∨
      m.guilds.get? g = none ∧
        ((∃ s, m.snapshot? files g = some s ∧
          m.resident now files g =
            (.restored s.modules, m.install now g (.restored s.modules) (some s.vector))) ∨
          (m.resident now files g).1 = .blank) := by
  rw [resident, restore]
  cases m.guilds.get? g with
  | some state => exact .inl rfl
  | none =>
    cases m.snapshot? files g with
    | none => exact .inr ⟨rfl, .inr rfl⟩
    | some s => exact .inr ⟨rfl, .inl ⟨s, rfl, rfl⟩⟩

theorem held_install_of_ne {state : GuildState} {v : AccessVector} (hne : h ≠ g) :
    (m.install now g state (some v)).held h = m.held h ∨
      (m.install now g state (some v)).held h = none ∧ m.cache.capacity ≤ m.cache.size :=
  IdleCache.peek_insert_of_ne hne.symm

/-- A guild that was not resident was restored from its snapshot, only for its modules to
disagree. -/
def Restored (m : Manager) (now : Nat) (files : Files) (g : Uuid) (e : PolicyError)
    (m' : Manager) : Prop :=
  m.guilds.get? g = none ∧
    ∃ s, m.snapshot? files g = some s ∧ ModuleSet.build s.modules = .error e ∧
      m' = m.install now g (.restored s.modules) (some s.vector)

theorem Valid.compileAll_error_cases (hm : m.Valid)
    (he : (m.compileAll now files g).1 = .error e) :
    (m.compileAll now files g).2 = m ∨
      m.Restored now files g e (m.compileAll now files g).2 := by
  obtain ⟨hb, hsame⟩ := hm.compileAll_of_error he
  rw [hsame]
  rcases m.resident_cases now files g with hr | ⟨hnone, ⟨s, hs, hr⟩ | hr⟩
  · exact .inl hr
  · rw [hr] at hb ⊢
    exact .inr ⟨hnone, s, hs, hb, rfl⟩
  · -- No modules are no modules in conflict.
    rw [hr] at hb
    cases hb

end Manager

theorem Resolver.of_reload_error {r : Resolver} {m : Manager} {now : Nat} {files : Files} {g : Uuid}
    {e : PolicyError} (he : (r.reload m now files g).1 = .error e) :
    (m.compileAll now files g).1 = .error e ∧ (r.reload m now files g).2.1 = r := by
  rw [reload] at he ⊢
  cases hc : m.compileAll now files g with
  | mk result m₁ =>
    rw [hc] at he
    cases result with
    | ok v => cases he
    | error _ =>
      cases he
      exact ⟨rfl, rfl⟩

theorem Answer.error_of_ofExcept {α : Type} {f : α → Answer} {r : Except PolicyError α}
    {e : PolicyError} (h : Answer.ofExcept f r = .failed e) (hf : ∀ a, f a ≠ .failed e) :
    r = .error e := by
  cases r with
  | ok a => exact absurd h (hf a)
  | error _ =>
    cases h
    rfl

theorem Answer.ne_failed_of_isOk {α : Type} {f : α → Answer} {r : Except PolicyError α}
    (h : r.isOk) (hf : ∀ a e, f a ≠ .failed e) (e : PolicyError) :
    Answer.ofExcept f r ≠ .failed e := by
  intro he
  rw [Answer.error_of_ofExcept he fun a => hf a e] at h
  cases h

namespace Session

variable {s : Session} {g : Uuid} {e : PolicyError} {st : AdminStep}

theorem admin_of_failed (hv : s.manager.Valid) (hst : st.changes? = some g)
    (he : (s.admin st).1 = .failed e) :
    (s.admin st).2 = s ∨ (st = .compileAll g ∨ st = .reload g) ∧
      ∃ m, (s.admin st).2 = { s with manager := m } ∧
        s.manager.Restored s.clock s.files g e m := by
  have hsame {m : Manager} (hm : m = s.manager) : { s with manager := m } = s := by rw [hm]
  have hmerge (hc : (s.manager.compileAll s.clock s.files g).1 = .error e) :
      { s with manager := (s.manager.compileAll s.clock s.files g).2 } = s ∨
        s.manager.Restored s.clock s.files g e (s.manager.compileAll s.clock s.files g).2 := by
    rcases hv.compileAll_error_cases hc with hr | hr
    · exact .inl (hsame hr)
    · exact .inr hr
  cases st with
  | load g' input =>
    simp only [admin] at he ⊢
    cases hi : input.toModule with
    | error _ => exact .inl rfl
    | ok module =>
      rw [hi] at he
      have hf := Answer.error_of_ofExcept he fun _ => Answer.noConfusion
      exact .inl (hsame (Manager.load_of_error hf))
  | loadFile g' path =>
    have hf := Answer.error_of_ofExcept he fun _ => Answer.noConfusion
    exact .inl (hsame (Manager.loadFile_of_error hf))
  | loadVector g' path =>
    have hf := Answer.error_of_ofExcept he fun _ => Answer.noConfusion
    exact .inl (hsame (Manager.loadVector_of_error hf))
  | loadGuild g' =>
    have hf := Answer.error_of_ofExcept he fun _ => Answer.noConfusion
    exact .inl (hsame (Manager.loadGuild_of_error hf))
  | compileAll g' =>
    cases hst
    rcases hmerge (Answer.error_of_ofExcept he fun _ => Answer.noConfusion) with hr | hr
    · exact .inl hr
    · exact .inr ⟨.inl rfl, _, rfl, hr⟩
  | reload g' =>
    cases hst
    obtain ⟨hc, hkept⟩ :=
      Resolver.of_reload_error (Answer.error_of_ofExcept he fun _ => Answer.noConfusion)
    have hafter : (s.admin (.reload g)).2 =
        { s with manager := (s.manager.compileAll s.clock s.files g).2 } := by
      change { s with
        resolver := (s.resolver.reload s.manager s.clock s.files g).2.1
        manager := (s.resolver.reload s.manager s.clock s.files g).2.2 } = _
      rw [hkept, s.resolver.reload_manager]
    rw [hafter]
    rcases hmerge hc with hr | hr
    · exact .inl hr
    · exact .inr ⟨.inr rfl, _, rfl, hr⟩
  | unload g' name =>
    simp only [admin] at he
    cases hu : (s.manager.unload s.clock s.files g' name).1 with
    | none =>
      rw [hu] at he
      cases he
    | some module =>
      rw [hu] at he
      cases he
  | evict | reset => cases he
  | modules | vector | storeVector | storeGuild | storeModule | compileFile | resident => cases hst

/-- A change that fails takes its time and does nothing else. Only a merge may have restored the
guild's snapshot, if the guild was not resident; the access vector that this puts into the cache may
push out others if the cache was full. -/
theorem failed_changes_nothing (config : Config) (steps : List Step) {st : AdminStep} {g : Uuid}
    {e : PolicyError} (hst : st.changes? = some g)
    (he : (((make config).after steps).step (.admin st)).1 = .failed e) :
    let s := (make config).after steps
    let s' := (s.step (.admin st)).2
    s' = { s with clock := s.clock + tick } ∨
      (st = .compileAll g ∨ st = .reload g) ∧
      s' = { s with manager := s'.manager, clock := s.clock + tick } ∧
      s.manager.Restored s.clock s.files g e s'.manager ∧
      ∀ h, h ≠ g → s'.manager.guilds.get? h = s.manager.guilds.get? h ∧
        (s'.manager.held h = s.manager.held h ∨
          s'.manager.held h = none ∧ s.manager.cache.capacity ≤ s.manager.cache.size) := by
  intro s s'
  have hdue : s.manager.due = [] := after_due config steps
  have hstep : s' = { (s.admin st).2 with
      manager := (s.admin st).2.manager.settle (s.admin st).2.clock
      clock := (s.admin st).2.clock + tick } := rfl
  rcases admin_of_failed (valid config steps) hst he with hsame | ⟨hmerge, m, hm, hr⟩
  · left
    rw [hstep, hsame, Manager.settle_of_idle hdue]
  · right
    have hidle : m.due = [] := by
      obtain ⟨_, _, _, _, rfl⟩ := hr
      exact hdue
    rw [hm, Manager.settle_of_idle hidle] at hstep
    rw [hstep]
    refine ⟨hmerge, rfl, hr, fun h hne => ?_⟩
    obtain ⟨_, snap, _, _, rfl⟩ := hr
    exact ⟨Table.get?_insert_of_ne hne.symm, Manager.held_install_of_ne hne⟩

theorem compileAll_failed (hc : (s.manager.compileAll s.clock s.files g).1 = .error e) :
    (s.step (.admin (.compileAll g))).1 = .failed e :=
  congrArg (Answer.ofExcept .vector) hc

theorem loadVector_failed {path : String}
    (hl : (s.manager.loadVector s.clock s.files g path).1 = .error e) :
    (s.step (.admin (.loadVector g path))).1 = .failed e :=
  congrArg (Answer.ofExcept fun _ => .done) hl

def keptSnapshots : Config := { Config.default with snapshotDir := some "guilds" }

/-- Two modules that disagree about the type 0 are stored together. -/
def storeDisagreeing : List Step :=
  [.admin (.load 1 (.compiled ⟨"users", none, 1, ["user"], [1], [0], .empty, .empty⟩)),
    .admin (.load 1 (.compiled ⟨"guests", none, 1, ["guest"], [1], [0], .empty, .empty⟩)),
    .admin (.storeGuild 1), .admin (.evict 1)]

theorem failed_changes_nothing_disagreeing :
    let s := (make keptSnapshots).after storeDisagreeing
    let s' := (s.step (.admin (.compileAll 1))).2
    (∃ e, (s.step (.admin (.compileAll 1))).1 = .failed e ∧
      s.manager.Restored s.clock s.files 1 e s'.manager) ∧
    (s.step (.admin (.loadVector 1 "lost.avc"))).2 = { s with clock := s.clock + tick } := by
  intro s s'
  have hfails : ¬(s.manager.compileAll s.clock s.files 1).1.isOk := by decide +kernel
  have hlost : ¬(s.manager.loadVector s.clock s.files 1 "lost.avc").1.isOk := by decide +kernel
  have hgone : s.manager.residentCount = 0 := by decide +kernel
  have hcount : s'.manager.residentCount = 1 := by decide +kernel
  have hfail := @failed_changes_nothing keptSnapshots storeDisagreeing
  -- From here on the session is any one that the theorem is about.
  have hs : (make keptSnapshots).after storeDisagreeing = s := rfl
  rw [hs] at hfail
  clear_value s
  constructor
  · obtain ⟨e, hc⟩ := exists_error_of_not_isOk hfails
    have he := compileAll_failed hc
    refine ⟨e, he, ?_⟩
    rcases hfail rfl he with hsame | ⟨_, _, hrestored, _⟩
    · change (s.step _).2.manager.residentCount = 1 at hcount
      rw [hsame, hgone] at hcount
      cases hcount
    · exact hrestored
  · obtain ⟨e, hl⟩ := exists_error_of_not_isOk hlost
    rcases hfail rfl (loadVector_failed hl) with hsame | ⟨hmerge, _⟩
    · exact hsame
    · rcases hmerge with h | h
      · cases h
      · cases h

end Session

end GuildPolicy
