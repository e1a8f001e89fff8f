import GuildPolicy.Proofs.Files.Replace
import GuildPolicy.Proofs.Guild.Storage
import GuildPolicy.Proofs.Session.Failure
import GuildPolicy.Proofs.Session.Rebuild
import GuildPolicy.Proofs.Snapshot.RoundTrip

namespace GuildPolicy

/-- What is asked of a guild is answered from an access vector. -/
def Manager.Answers (m : Manager) (now : Nat) (g : Uuid) (v : AccessVector) : Prop :=
  ∀ detached a b,
    (m.permissionsOf now detached g a).1 = a.allowed v ∧
    (m.permissionsOn now detached g a b).1 = a.onPair b v AccessVector.allowedOn ∧
    (m.denialsOn now detached g a b).1 = a.onPair b v AccessVector.deniedOn

theorem Manager.answers_of_cached {m : Manager} {now : Nat} {g : Uuid} {p : Published}
    (hp : (m.cached now g).1 = some p) : m.Answers now g p.vector := by
  intro detached a b
  have hc : (m.current now detached g).1 = some p := current_fst.trans hp
  rw [permissionsOn, denialsOn, permissionsOf_eq, pairOf_eq, pairOf_eq, hc]
  exact ⟨rfl, rfl, rfl⟩

/-- The guild that a step stores, and where. -/
def AdminStep.stores? (config : Config) : AdminStep → Option (Uuid × String)
  | .storeVector g path => some (g, path)
  | .storeGuild g => (config.snapshotPath? g).map fun path => (g, path)
  | _ => none

/-- The steps that bring a guild back from a file: loading it, or touching it first. -/
inductive AdminStep.Brings (m : Manager) (h : Uuid) (path : String) : AdminStep → Prop
  | loadVector : Brings m h path (.loadVector h path)
  | loadGuild (hp : m.config.snapshotPath? h = some path) : Brings m h path (.loadGuild h)
  | modules (hp : m.config.snapshotPath? h = some path) (hcold : m.guilds.get? h = none) :
      Brings m h path (.modules h)
  | vector (hp : m.config.snapshotPath? h = some path) (hcold : m.guilds.get? h = none) :
      Brings m h path (.vector h)

/-- A step that does not start anew and is not there to change a guild. -/
def Step.Spares (h : Uuid) : Step → Prop
  | .admin st => st.changes? ≠ some h
  | .restart => False
  | _ => True

namespace Session

variable {s t : Session} {g h : Uuid} {snap : GuildSnapshot} {path : String}

section Spared

open Manager.Leaves in
theorem admin_leaves {st : AdminStep} (hst : st.changes? ≠ some h) :
    s.manager.Leaves (s.admin st).2.manager h := by
  cases st with
  | load g input =>
    have hne : g ≠ h := fun he => hst (congrArg some he)
    simp only [admin]
    cases input.toModule with
    | error e => exact refl _
    | ok module => exact load hne module
  | loadFile g path => exact loadFile fun he => hst (congrArg some he)
  | unload g name => exact unload (fun he => hst (congrArg some he)) name
  | compileAll g => exact compileAll fun he => hst (congrArg some he)
  | reload g =>
    change s.manager.Leaves (s.resolver.reload s.manager s.clock s.files g).2.2 h
    rw [s.resolver.reload_manager]
    exact compileAll fun he => hst (congrArg some he)
  | loadVector g path => exact loadVector fun he => hst (congrArg some he)
  | loadGuild g => exact loadGuild fun he => hst (congrArg some he)
  | evict g => exact evict fun he => hst (congrArg some he)
  | reset g =>
    have hne : g ≠ h := fun he => hst (congrArg some he)
    change s.manager.Leaves (s.manager.install s.clock g .blank none) h
    exact install hne none
  | modules g => exact modulesOf
  | vector g => exact vectorOf
  | storeVector g path =>
    change s.manager.Leaves (s.manager.store s.clock s.files g path).2.1 h
    exact store
  | storeGuild g =>
    change s.manager.Leaves (s.manager.storeGuild s.clock s.files g).2.1 h
    exact storeGuild
  | storeModule path input =>
    simp only [admin]
    cases input.toModule with
    | error e => exact refl _
    | ok module => exact refl _
  | compileFile path => exact refl _
  | resident => exact refl _

theorem lookup_leaves (detached : Bool) (l : Lookup) :
    s.manager.Leaves (s.lookup detached l).2.manager h := by
  rw [lookup_manager]
  cases l.asks? with
  | none => exact .refl _
  | some g => exact .current

theorem step_leaves {st : Step} (hst : st.Spares h) :
    s.manager.Leaves (s.step st).2.manager h := by
  have hact : s.manager.Leaves (s.act st).2.manager h := by
    cases st with
    | admin st => exact admin_leaves hst
    | lookup l detached => exact lookup_leaves detached l
    | restart => exact hst.elim
    | label | file | invalidateGuild | invalidateEntity | invalidateMember | describeResolver
    | sleep => exact .refl _
  exact hact.trans .settle

theorem after_leaves {more : List Step} (hmore : ∀ st ∈ more, st.Spares h) :
    s.manager.Leaves (s.after more).manager h := by
  induction more generalizing s with
  | nil => exact .refl _
  | cons st more ih =>
    obtain ⟨hst, hmore⟩ := List.forall_mem_cons.1 hmore
    exact (step_leaves hst).trans (ih hmore)

end Spared

section Stored

theorem read_of_stored {st : AdminStep} (hst : st.stores? s.manager.config = some (g, path))
    (hok : ∀ e, (s.step (.admin st)).1 ≠ .failed e) :
    (s.step (.admin st)).2.files.read path =
      .ok (encodeGuild (s.manager.toStore s.clock g).1) := by
  have hreplaced (hr : ∀ e, (s.manager.store s.clock s.files g path).1 ≠ .error e) :
      (s.manager.store s.clock s.files g path).2.2.read path =
        .ok (encodeGuild (s.manager.toStore s.clock g).1) := by
    rw [Manager.store_eq] at hr ⊢
    cases hf : s.files.replace path (encodeGuild (s.manager.toStore s.clock g).1) with
    | mk files result =>
      rw [hf] at hr
      cases result with
      | ok => exact Files.read_replace hf
      | error e => exact absurd rfl (hr e)
  cases st with
  | storeVector g' path' =>
    cases hst
    refine hreplaced fun e he => hok e ?_
    exact congrArg (Answer.ofExcept fun _ => .done) he
  | storeGuild g' =>
    obtain ⟨path', hp, hpair⟩ := Option.map_eq_some_iff.1 hst
    cases hpair
    have hs : s.manager.storeGuild s.clock s.files g =
        ((fun _ => true) <$> (s.manager.store s.clock s.files g path).1,
          (s.manager.store s.clock s.files g path).2) := by
      rw [Manager.storeGuild, hp]
    change (s.manager.storeGuild s.clock s.files g).2.2.read path = _
    rw [hs]
    refine hreplaced fun e he => hok e ?_
    change Answer.ofExcept .truth (s.manager.storeGuild s.clock s.files g).1 = _
    rw [hs, he]
    rfl
  | load | loadFile | unload | modules | compileAll | reload | vector | loadVector | loadGuild
  | storeModule | compileFile | evict | reset | resident => cases hst

end Stored

section Brought

theorem admin_of_brings {st : AdminStep} (hst : st.Brings t.manager h path)
    (hheld : t.manager.guilds.get? h = none → t.manager.held h = none)
    (hread : readGuildFile t.files path = .ok snap) :
    (∀ e, (t.admin st).1 ≠ .failed e) ∧ (t.admin st).2.clock = t.clock ∧
      t.manager.Installed t.clock h snap (t.admin st).2.manager := by
  cases hst with
  | loadVector =>
    have hl : t.manager.loadVector t.clock t.files h path = _ := Manager.loadVector_of_read hread
    refine ⟨fun e he => ?_, rfl, ?_⟩
    · change Answer.ofExcept _ (t.manager.loadVector t.clock t.files h path).1 = _ at he
      rw [hl] at he
      cases he
    · change t.manager.Installed _ _ _ (t.manager.loadVector t.clock t.files h path).2
      rw [hl]
      exact Manager.installed_install
  | loadGuild hp =>
    have hl : t.manager.loadGuild t.clock t.files h = _ := Manager.loadGuild_of_read hp hread
    refine ⟨fun e he => ?_, rfl, ?_⟩
    · change Answer.ofExcept _ (t.manager.loadGuild t.clock t.files h).1 = _ at he
      rw [hl] at he
      cases he
    · change t.manager.Installed _ _ _ (t.manager.loadGuild t.clock t.files h).2
      rw [hl]
      exact Manager.installed_install
  | modules hp hcold =>
    have hr : t.manager.restore t.clock t.files h = _ := Manager.restore_of_read hcold hp hread
    refine ⟨fun e he => ?_, rfl, ?_⟩
    · cases he
    · change t.manager.Installed _ _ _ (t.manager.modulesOf t.clock t.files h).2
      rw [Manager.modulesOf, hr]
      exact Manager.installed_install
  | vector hp hcold =>
    have hr : t.manager.restore t.clock t.files h = _ := Manager.restore_of_read hcold hp hread
    have hc : t.manager.cached t.clock h = (none, t.manager) := by
      rw [Manager.cached, IdleCache.get_of_peek_eq_none (hheld hcold)]
    refine ⟨fun e he => ?_, rfl, ?_⟩
    · cases he
    · change t.manager.Installed _ _ _ (t.manager.vectorOf t.clock t.files h).2
      rw [Manager.vectorOf, hc]
      dsimp only
      rw [hr]
      exact Manager.installed_rebuild

/-- A guild has the modules of a snapshot, and the access vector of the snapshot answers for it as
long as what is current was made so under a given number. -/
structure Carries (u : Session) (h : Uuid) (snap : GuildSnapshot) (serial : Nat) : Prop where
  modules : (u.manager.modulesOf u.clock u.files h).1 = snap.modules
  vector : ∀ p, (u.manager.cached u.clock h).1 = some p → p.serial = serial →
    (u.manager.vectorOf u.clock u.files h).1 = snap.vector ∧
      u.manager.Answers u.clock h snap.vector

theorem carries_of_installed (hi : t.manager.Installed t.clock h snap s.manager)
    (hn : t.manager.Numbered) {more : List Step} (hmore : ∀ st ∈ more, st.Spares h) :
    (s.after more).Carries h snap t.manager.nextSerial := by
  have hs := after_leaves hmore _ hi.resident
  have hlasting : .restart ∉ more := fun hr => hmore _ hr
  constructor
  · rw [Manager.modulesOf_of_resident hs]
    rfl
  · intro p hp hserial
    have hpub := hi.eq_of_serial hn (after_later hlasting) (Manager.held_of_cached hp) hserial
    subst hpub
    rw [Manager.vectorOf_of_resident hs, Manager.rebuild_of_cached hp]
    exact ⟨rfl, Manager.answers_of_cached hp⟩

/-- A step that brings a guild back from a file does not fail and leaves the guild with what the
file says. -/
theorem step_of_brings {st : AdminStep} (hst : st.Brings t.manager h path)
    (hheld : t.manager.guilds.get? h = none → t.manager.held h = none)
    (hdue : t.manager.due = []) (hread : readGuildFile t.files path = .ok snap) :
    (∀ e, (t.step (.admin st)).1 ≠ .failed e) ∧
      t.manager.Installed t.clock h snap (t.step (.admin st)).2.manager ∧
      (t.step (.admin st)).2.clock = t.clock + tick := by
  obtain ⟨hok, hclock, hi⟩ := admin_of_brings hst hheld hread
  have hidle : (t.admin st).2.manager.due = [] := hi.idle.trans hdue
  have hsettle : (t.step (.admin st)).2.manager = (t.admin st).2.manager :=
    Manager.settle_of_idle hidle
  have hlater : (t.step (.admin st)).2.clock = (t.admin st).2.clock + tick := rfl
  rw [hsettle, hlater, hclock]
  exact ⟨hok, hi, rfl⟩

end Brought

/-- What is stored of a resident guild is read back and, if it fits into memory, decoded; it says
what the guild's modules and its access vector were. Wherever the bytes are read again, by loading
them or by touching a guild that they are kept for, no step fails for it, the guild has these
modules until it is changed, and this access vector answers for it as long as it is current; which
it is right away if it outlives the step. -/
theorem stored_carries (config : Config) (steps : List Step) {st : AdminStep} {g : Uuid}
    {path : String} {state : GuildState}
    (hst : st.stores? ((make config).after steps).manager.config = some (g, path))
    (hg : ((make config).after steps).manager.guilds.get? g = some state)
    (hok : ∀ e, (((make config).after steps).step (.admin st)).1 ≠ .failed e) :
    let s := (make config).after steps
    let modules := (s.manager.modulesOf s.clock s.files g).1
    let v := (s.manager.vectorOf s.clock s.files g).1
    (∀ p, (s.manager.cached s.clock g).1 = some p → s.manager.Answers s.clock g v) ∧
    ∃ bytes, (s.step (.admin st)).2.files.read path = .ok bytes ∧
      (bytes.length < UInt64.size → decodeGuild bytes = .ok ⟨v, modules⟩ ∧
        ∀ config' steps' h path' st',
          let t := (make config').after steps'
          let t' := (t.step (.admin st')).2
          t.files.read path' = .ok bytes → st'.Brings t.manager h path' →
            (∀ e, (t.step (.admin st')).1 ≠ .failed e) ∧
            (tick < t.manager.cache.lifetime →
              (t'.manager.cached t'.clock h).1 = some ⟨t.manager.nextSerial, v⟩) ∧
            ∀ more, (∀ st ∈ more, st.Spares h) →
              (t'.after more).Carries h ⟨v, modules⟩ t.manager.nextSerial) := by
  intro s modules v
  have hsnap : (s.manager.toStore s.clock g).1 = ⟨v, modules⟩ :=
    congrArg Prod.fst (Manager.toStore_of_resident s.files hg)
  constructor
  · intro p hp
    have hv : v = p.vector := by
      change (s.manager.vectorOf s.clock s.files g).1 = _
      rw [Manager.vectorOf_of_resident hg, Manager.rebuild_of_cached hp]
      rfl
    rw [hv]
    exact Manager.answers_of_cached hp
  · refine ⟨_, read_of_stored hst hok, fun hsize => ?_⟩
    have hdecode : decodeGuild (encodeGuild (s.manager.toStore s.clock g).1) =
        .ok ⟨v, modules⟩ := by
      rw [decodeGuild_encodeGuild hsize, (valid config steps).toStore s.clock g, ← hsnap]
      rfl
    refine ⟨hdecode, ?_⟩
    intro config' steps' h path' st' t t' hread hbrings
    have hheld : t.manager.guilds.get? h = none → t.manager.held h = none :=
      (accounts config' steps').held_of_cold
    have hdue : t.manager.due = [] := after_due config' steps'
    have hfile : readGuildFile t.files path' = .ok ⟨v, modules⟩ :=
      readGuildFile_of_read hread hdecode
    obtain ⟨hok', hi, hclock⟩ := step_of_brings hbrings hheld hdue hfile
    refine ⟨hok', fun hlast => ?_, fun more hmore => ?_⟩
    · have hsoon : t'.clock - t.clock < t.manager.cache.lifetime := by
        rw [show t'.clock = t.clock + tick from hclock, Nat.add_sub_cancel_left]
        exact hlast
      exact hi.current t'.clock hsoon
    · exact carries_of_installed hi (after_numbered config' steps') hmore

theorem stored_carries_pending :
    let s := (make keptSnapshots).after loadPending
    let t := (make keptSnapshots).after (loadPending ++ [.admin (.storeGuild 1), .restart])
    let t' := (t.step (.admin (.modules 1))).2
    t.manager.residentCount = 0 ∧
      (t'.manager.modulesOf t'.clock t'.files 1).1 =
        (s.manager.modulesOf s.clock s.files 1).1 ∧
      (t'.manager.permissionsOf t'.clock false 1 (.name "user")).1 = 1 := by
  intro s t t'
  obtain ⟨path, hpath⟩ : ∃ path, keptSnapshots.snapshotPath? 1 = some path := ⟨_, rfl⟩
  have hconfig : s.manager.config = keptSnapshots := by decide +kernel
  have hst : (AdminStep.storeGuild 1).stores? s.manager.config = some (1, path) := by
    rw [hconfig, AdminStep.stores?, hpath]
    rfl
  obtain ⟨state, hg⟩ : ∃ state, s.manager.guilds.get? 1 = some state := ⟨_, rfl⟩
  have hok : (s.manager.storeGuild s.clock s.files 1).1.isOk := by decide +kernel
  have hsize : (encodeGuild (s.manager.toStore s.clock 1).1).length < UInt64.size := by
    decide +kernel
  have hv : (TypeRef.name "user").allowed (s.manager.vectorOf s.clock s.files 1).1 = 1 := by
    decide +kernel
  have hkept : (s.step (.admin (.storeGuild 1))).2.manager.config = keptSnapshots := by
    decide +kernel
  have hs : (make keptSnapshots).after loadPending = s := rfl
  have ht :
      (make keptSnapshots).after (loadPending ++ [.admin (.storeGuild 1), .restart]) = t := rfl
  have happend :=
    after_append (make keptSnapshots) loadPending [.admin (.storeGuild 1), .restart]
  have hstored := @stored_carries keptSnapshots loadPending
  rw [after_cons, after_cons, after_nil, hs, ht] at happend
  rw [hs] at hstored
  clear_value s t
  -- The guild is not resident after the restart, and its snapshot is where it was stored.
  have htm : t.manager = .make keptSnapshots := by
    rw [happend, ← hkept]
    rfl
  have hdone : ∀ e, (s.step (.admin (.storeGuild 1))).1 ≠ .failed e :=
    Answer.ne_failed_of_isOk (f := .truth) hok fun _ _ => nofun
  obtain ⟨_, bytes, hread, hcarries⟩ := hstored hst hg hdone
  have hbytes : bytes = encodeGuild (s.manager.toStore s.clock 1).1 :=
    Except.ok.inj (hread.symm.trans (read_of_stored hst hdone))
  rw [← hbytes] at hsize
  obtain ⟨_, hcarries⟩ := hcarries hsize
  replace hcarries := hcarries keptSnapshots
    (loadPending ++ [.admin (.storeGuild 1), .restart]) 1 path (.modules 1)
  rw [ht] at hcarries
  have htread : t.files.read path = .ok bytes := by
    rw [happend]
    exact hread
  have hcold : t.manager.guilds.get? 1 = none := by rw [htm]; rfl
  have hplace : t.manager.config.snapshotPath? 1 = some path := by rw [htm]; exact hpath
  have hlifetime : tick < t.manager.cache.lifetime := by rw [htm]; decide
  obtain ⟨_, hcurrent, hlasts⟩ := hcarries htread (.modules hplace hcold)
  obtain ⟨hmodules, hvector⟩ := hlasts [] nofun
  obtain ⟨_, hanswers⟩ := hvector _ (hcurrent hlifetime) rfl
  refine ⟨?_, hmodules, ?_⟩
  · rw [htm]
    rfl
  · exact (hanswers false (.name "user") (.name "user")).1.trans hv

end Session

end GuildPolicy
