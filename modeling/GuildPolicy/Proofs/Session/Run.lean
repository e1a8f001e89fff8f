import GuildPolicy.Proofs.Guild.Rebuild
import GuildPolicy.Proofs.Guild.Validity
import GuildPolicy.Session

namespace GuildPolicy

/-- The guild whose access vector a look-up asks for. -/
def Lookup.asks? : Lookup → Option Uuid
  | .current g | .permissions g _ | .permissionsOn g _ _ | .denialsOn g _ _ => some g
  | .policy q | .effective q _ => some q.guild
  | .holds q _ required => if required = .empty then none else some q.guild

def Lookup.guild : Lookup → Uuid
  | .current g | .permissions g _ | .permissionsOn g _ _ | .denialsOn g _ _ => g
  | .policy q | .effective q _ | .holds q _ _ => q.guild

/-- The guild that a step names, if it names one. -/
def AdminStep.guild? : AdminStep → Option Uuid
  | .load g _ | .loadFile g _ | .unload g _ | .modules g | .compileAll g | .reload g | .vector g
  | .storeVector g _ | .loadVector g _ | .storeGuild g | .loadGuild g | .evict g | .reset g => some g
  | .storeModule _ _ | .compileFile _ | .resident => none

/-- The guild whose modules or access vector a step is there to change. -/
def AdminStep.changes? : AdminStep → Option Uuid
  | .load g _ | .loadFile g _ | .unload g _ | .compileAll g | .reload g | .loadVector g _
  | .loadGuild g | .evict g | .reset g => some g
  | .modules _ | .vector _ | .storeVector _ _ | .storeGuild _ | .storeModule _ _ | .compileFile _
  | .resident => none

theorem Lookup.guild_of_asks {l : Lookup} {g : Uuid} (h : l.asks? = some g) : l.guild = g := by
  cases l with
  | holds q native required =>
    rw [asks?] at h
    split at h
    · cases h
    · exact Option.some.inj h
  | current | permissions | permissionsOn | denialsOn | policy | effective => exact Option.some.inj h

namespace Session

def after (s : Session) (steps : List Step) : Session := (s.run steps).2

@[simp] theorem after_nil (s : Session) : s.after [] = s := rfl

@[simp] theorem after_cons (s : Session) (st : Step) (steps : List Step) :
    s.after (st :: steps) = (s.step st).2.after steps := rfl

theorem after_append (s : Session) (steps more : List Step) :
    s.after (steps ++ more) = (s.after steps).after more := by
  induction steps generalizing s with
  | nil => rfl
  | cons st steps ih => exact ih _

theorem after_concat (s : Session) (steps : List Step) (st : Step) :
    s.after (steps ++ [st]) = ((s.after steps).step st).2 :=
  s.after_append steps [st]

theorem after_induction {P : Session → Prop} {s : Session} (h : P s)
    (hstep : ∀ s st, P s → P (s.step st).2) (steps : List Step) : P (s.after steps) := by
  induction steps generalizing s with
  | nil => exact h
  | cons st steps ih => exact ih (hstep s st h)

def recordAdmin (s : Session) (L : Ledger) : AdminStep → Ledger
  | .load g input =>
    match input.toModule with
    | .ok module => L.load s.manager s.files g module
    | .error _ => L
  | .loadFile g path => L.loadFile s.manager s.files g path
  | .unload g _ | .modules g => L.touch s.manager s.files g
  | .compileAll g | .reload g => L.compile s.manager s.clock s.files g
  | .vector g => L.ask s.manager s.clock s.files g
  | .loadVector g path => L.install s.files g path
  | .loadGuild g => L.installKept s.manager s.files g
  | .evict g | .reset g => L.record g none
  | .storeVector _ _ | .storeGuild _ | .storeModule _ _ | .compileFile _ | .resident => L

/-- What is in force after a step. -/
def record (s : Session) (L : Ledger) : Step → Ledger
  | .admin step => s.recordAdmin L step
  | .restart => .blank
  | _ => L

def inForce (s : Session) (L : Ledger) : List Step → Ledger
  | [] => L
  | st :: steps => (s.step st).2.inForce (s.record L st) steps

end Session

namespace Session

variable (s : Session) (L : Ledger)

theorem policy_manager (detached : Bool) (q : Question) :
    (s.policy detached q).2.manager = (s.manager.current s.clock detached q.guild).2 :=
  s.resolver.resolve_manager s.manager s.labels s.clock detached q

theorem lookup_manager (detached : Bool) (l : Lookup) :
    (s.lookup detached l).2.manager =
      l.asks?.elim s.manager fun g => (s.manager.current s.clock detached g).2 := by
  cases l with
  | current g => rfl
  | permissions g subject =>
    exact congrArg Prod.snd (Manager.permissionsOf_eq subject)
  | permissionsOn g subject target | denialsOn g subject target =>
    exact congrArg Prod.snd (Manager.pairOf_eq subject target _)
  | policy q | effective q native => exact s.policy_manager detached q
  | holds q native required =>
    simp only [lookup, Lookup.asks?]
    by_cases h : required = .empty
    · rw [if_pos h, if_pos h]
      rfl
    · rw [if_neg h, if_neg h]
      exact s.policy_manager detached q

theorem admin_frame (st : AdminStep) :
    (s.admin st).2.clock = s.clock ∧ (s.admin st).2.labels = s.labels := by
  cases st with
  | load g input | storeModule path input =>
    simp only [admin]
    split
    · exact ⟨rfl, rfl⟩
    · exact ⟨rfl, rfl⟩
  | loadFile | unload | modules | compileAll | reload | vector | storeVector | loadVector
  | storeGuild | loadGuild | compileFile | evict | reset | resident => exact ⟨rfl, rfl⟩

theorem lookup_frame (detached : Bool) (l : Lookup) :
    (s.lookup detached l).2.clock = s.clock ∧ (s.lookup detached l).2.labels = s.labels := by
  cases l with
  | holds q native required =>
    simp only [lookup]
    split
    · exact ⟨rfl, rfl⟩
    · exact ⟨rfl, rfl⟩
  | current | permissions | permissionsOn | denialsOn | policy | effective => exact ⟨rfl, rfl⟩

/-- A step is about the guild that it names; one that names none leaves the manager alone. -/
theorem admin_moves (st : AdminStep) :
    st.guild?.elim ((s.admin st).2.manager = s.manager ∧ s.recordAdmin L st = L) fun g =>
      MovesOf s.files g (s.manager, L) ((s.admin st).2.manager, s.recordAdmin L st) := by
  cases st with
  | load g input =>
    simp only [AdminStep.guild?, Option.elim, admin, recordAdmin]
    cases input.toModule with
    | error e => exact .refl
    | ok module => exact s.manager.load_moves L s.clock s.files g module
  | loadFile g path => exact s.manager.loadFile_moves L s.clock s.files g path
  | unload g name => exact s.manager.unload_moves L s.clock s.files g name
  | modules g => exact s.manager.modulesOf_moves L s.clock s.files g
  | compileAll g => exact s.manager.compileAll_moves L s.clock s.files g
  | reload g =>
    change MovesOf _ _ _ ((s.resolver.reload s.manager s.clock s.files g).2.2, _)
    rw [s.resolver.reload_manager]
    exact s.manager.compileAll_moves L s.clock s.files g
  | vector g => exact s.manager.vectorOf_moves L s.clock s.files g
  | storeVector g path => exact s.manager.store_moves L s.clock s.files g path
  | loadVector g path => exact s.manager.loadVector_moves L s.clock s.files g path
  | storeGuild g => exact s.manager.storeGuild_moves L s.clock s.files g
  | loadGuild g => exact s.manager.loadGuild_moves L s.clock s.files g
  | storeModule path input =>
    simp only [AdminStep.guild?, Option.elim, admin]
    cases input.toModule with
    | error e => exact ⟨rfl, rfl⟩
    | ok module => exact ⟨rfl, rfl⟩
  | compileFile path => exact ⟨rfl, rfl⟩
  | evict g => exact .single (.evict _ L)
  | reset g => exact .single (.reset _ L s.clock)
  | resident => exact ⟨rfl, rfl⟩

theorem lookup_moves (detached : Bool) (l : Lookup) :
    MovesOf s.files l.guild (s.manager, L) ((s.lookup detached l).2.manager, L) := by
  rw [lookup_manager]
  cases ha : l.asks? with
  | none => exact .refl
  | some g =>
    obtain rfl : l.guild = g := Lookup.guild_of_asks ha
    exact s.manager.current_moves L s.clock s.files l.guild detached

theorem act_moves {st : Step} (h : st ≠ .restart) :
    Moves s.files (s.manager, L) ((s.act st).2.manager, s.record L st) := by
  cases st with
  | admin st =>
    have hm := s.admin_moves L st
    change Moves _ _ ((s.admin st).2.manager, s.recordAdmin L st)
    cases hst : st.guild? with
    | some g =>
      rw [hst] at hm
      exact hm.moves
    | none =>
      rw [hst] at hm
      rw [hm.1, hm.2]
  | lookup l detached => exact (s.lookup_moves L detached l).moves
  | restart => exact absurd rfl h
  | label | file | invalidateGuild | invalidateEntity | invalidateMember | describeResolver
  | sleep => exact .refl

/-- A step is moves, unless everything starts anew with it. -/
theorem step_moves {st : Step} (h : st ≠ .restart) :
    Moves s.files (s.manager, L) ((s.step st).2.manager, s.record L st) :=
  (s.act_moves L h).trans ((s.act st).2.manager.settle_moves _ (s.act st).2.clock s.files)

theorem step_accounts {st : Step} (h : L.Accounts s.manager) :
    (s.record L st).Accounts (s.step st).2.manager := by
  by_cases hr : st = .restart
  · subst hr
    exact Ledger.accounts_make s.manager.config
  · exact (s.step_moves L hr).accounts h

theorem after_accounts {L : Ledger} {s : Session} (h : L.Accounts s.manager) (steps : List Step) :
    (s.inForce L steps).Accounts (s.after steps).manager := by
  induction steps generalizing s L with
  | nil => exact h
  | cons st steps ih => exact ih (s.step_accounts L h)

theorem accounts (config : Config) (steps : List Step) :
    ((make config).inForce .blank steps).Accounts ((make config).after steps).manager :=
  after_accounts (Ledger.accounts_make config) steps

/-- Nothing stays due between steps. -/
theorem after_due (config : Config) (steps : List Step) :
    ((make config).after steps).manager.due = [] :=
  after_induction (P := fun s => s.manager.due = []) rfl (fun _ _ _ => Manager.settle_due) steps

theorem after_later {s : Session} {steps : List Step} (h : .restart ∉ steps) :
    s.manager.Later (s.after steps).manager := by
  induction steps generalizing s with
  | nil => exact .refl _
  | cons st steps ih =>
    rw [List.mem_cons, not_or] at h
    exact (s.step_moves .blank (Ne.symm h.1)).later.trans (ih h.2)

theorem after_numbered (config : Config) (steps : List Step) :
    ((make config).after steps).manager.Numbered := by
  refine after_induction (P := fun s => s.manager.Numbered) (Manager.numbered_make config)
    (fun s st hs => ?_) steps
  by_cases hr : st = .restart
  · subst hr
    exact Manager.numbered_make _
  · exact (s.step_moves .blank hr).later.numbered hs

theorem step_valid {s : Session} {st : Step} (h : s.manager.Valid) :
    (s.step st).2.manager.Valid := by
  by_cases hr : st = .restart
  · subst hr
    exact Manager.valid_make s.manager.config
  · exact (s.step_moves .blank hr).valid h

theorem valid (config : Config) (steps : List Step) : ((make config).after steps).manager.Valid :=
  after_induction (P := fun s => s.manager.Valid) (Manager.valid_make config)
    (fun _ _ => step_valid) steps

end Session

end GuildPolicy
