import GuildPolicy.Proofs.Session.Freshness
import GuildPolicy.Proofs.Session.Isolation
import GuildPolicy.Proofs.Session.Replay

namespace GuildPolicy

namespace Session

/-- A part of a run that lasts for the lifetime of results and in which, but perhaps in its first
step, a question is not asked. -/
structure Pause (config : Config) (start pause : List Step) (q : Question) : Prop where
  quiet : ∀ st ∈ pause.tail, ¬st.Asks q
  long : ((make config).after start).clock + config.permissionCache.lifetime ≤
    ((make config).after (start ++ pause)).clock

section Steps

variable {s : Session} {q : Question} {x : Slot Resolved} {st : Step}

theorem lifetime_lookup {detached : Bool} {l : Lookup} :
    (s.lookup detached l).2.resolver.cache.lifetime = s.resolver.cache.lifetime := by
  cases l with
  | policy q | effective q native => exact Resolver.lifetime_resolve
  | holds q native required =>
    simp only [lookup]
    split
    · rfl
    · exact Resolver.lifetime_resolve
  | current | permissions | permissionsOn | denialsOn => rfl

theorem lifetime_admin {st : AdminStep} :
    (s.admin st).2.resolver.cache.lifetime = s.resolver.cache.lifetime := by
  cases st with
  | load g input | storeModule path input =>
    simp only [admin]
    split
    · rfl
    · rfl
  | reload g => exact Resolver.lifetime_reload
  | loadFile | unload | modules | compileAll | vector | storeVector | loadVector
  | storeGuild | loadGuild | compileFile | evict | reset | resident => rfl

theorem step_resolver_lifetime {config : Config} (hc : s.manager.config = config)
    (h : s.resolver.cache.lifetime = config.permissionCache.lifetime) (st : Step) :
    (s.step st).2.resolver.cache.lifetime = config.permissionCache.lifetime := by
  cases st with
  | admin st => exact lifetime_admin.trans h
  | lookup l detached => exact lifetime_lookup.trans h
  | label | file | describeResolver | sleep | invalidateGuild | invalidateEntity
  | invalidateMember => exact h
  | restart => exact congrArg (·.permissionCache.lifetime) hc

end Steps

section Runs

variable {config : Config} {steps start pause later : List Step} {q : Question}
variable {x : Slot Resolved} {st : Step} {p : Published} {detached : Bool}

theorem after_resolver_lifetime (config : Config) (steps : List Step) :
    ((make config).after steps).resolver.cache.lifetime = config.permissionCache.lifetime :=
  (after_induction (P := fun s => s.manager.config = config ∧
      s.resolver.cache.lifetime = config.permissionCache.lifetime) ⟨rfl, rfl⟩
    (fun s st h => ⟨(s.step_config st).trans h.1, step_resolver_lifetime h.1 h.2 st⟩) steps).2

theorem lastUse_le_clock (h : ((make config).after steps).resolver.slot? q = some x) :
    x.lastUse ≤ ((make config).after steps).clock := by
  induction steps using List.reverseRecOn with
  | nil => cases h
  | append_singleton steps st ih =>
    rw [after_concat] at h ⊢
    apply Nat.le_trans _ (step_clock_le _ st)
    rcases slot_of_step h with hx | ⟨-, hnow, -⟩
    · exact ih hx
    · exact Nat.le_of_eq hnow

theorem clock_le_after (s : Session) (steps : List Step) : s.clock ≤ (s.after steps).clock := by
  induction steps generalizing s with
  | nil => exact Nat.le_refl _
  | cons st steps ih => exact Nat.le_trans (s.step_clock_le st) (ih _)

theorem slot_of_quiet {s : Session} (hquiet : ∀ st ∈ steps, ¬st.Asks q)
    (h : (s.after steps).resolver.slot? q = some x) : s.resolver.slot? q = some x := by
  induction steps generalizing s with
  | nil => exact h
  | cons st steps ih =>
    obtain ⟨hst, hquiet⟩ := List.forall_mem_cons.1 hquiet
    rcases slot_of_step (ih hquiet h) with hx | ⟨hasks, -⟩
    · exact hx
    · exact absurd hasks hst

theorem Pause.expired (hpause : Pause config start pause q)
    (h : ((make config).after (start ++ pause)).resolver.slot? q = some x) :
    x.lastUse + config.permissionCache.lifetime ≤ ((make config).after (start ++ pause)).clock := by
  have hlast : x.lastUse ≤ ((make config).after start).clock := by
    rw [after_append] at h
    cases pause with
    | nil => exact lastUse_le_clock h
    | cons st quiet =>
      rcases slot_of_step (slot_of_quiet hpause.quiet h) with hx | ⟨-, hnow, -⟩
      · exact lastUse_le_clock hx
      · exact Nat.le_of_eq hnow
  exact Nat.le_trans (Nat.add_le_add_right hlast _) hpause.long

theorem lifetime_le_idle {used : Nat} (hexpired : used + config.permissionCache.lifetime ≤
      ((make config).after start).clock) :
    ((make config).after (start ++ later)).resolver.cache.lifetime ≤
      ((make config).after (start ++ later)).clock - used := by
  rw [after_resolver_lifetime]
  have hclock := ((make config).after start).clock_le_after later
  rw [← after_append] at hclock
  omega

/-- What is kept some time after a pause has expired with the pause, or was answered since. -/
theorem Pause.origin_of_slot (hpause : Pause config start pause q)
    (h : ((make config).after (start ++ pause ++ later)).resolver.slot? q = some x) :
    x.lastUse + config.permissionCache.lifetime ≤ ((make config).after (start ++ pause)).clock ∨
      ∃ mid after p, later = mid ++ after ∧ p.serial = x.value.serial ∧
        Origin config (start ++ pause ++ mid) after q p x.value.bits := by
  induction later using List.reverseRecOn generalizing x with
  | nil =>
    rw [List.append_nil] at h
    exact .inl (hpause.expired h)
  | append_singleton later st ih =>
    rw [← List.append_assoc, after_concat] at h
    obtain ⟨hrestart, hinv⟩ := undropped_of_step (Resolver.kept_eq_some_iff.2 ⟨x, h, rfl⟩)
    have hextend {r : Resolved} (ho : ∃ mid after p, later = mid ++ after ∧
        p.serial = r.serial ∧ Origin config (start ++ pause ++ mid) after q p r.bits) :
        ∃ mid after p, later ++ [st] = mid ++ after ∧ p.serial = r.serial ∧
          Origin config (start ++ pause ++ mid) after q p r.bits := by
      obtain ⟨mid, after, p, rfl, hserial, ho⟩ := ho
      exact ⟨mid, after ++ [st], p, List.append_assoc .., hserial, ho.concat hrestart hinv⟩
    rcases slot_of_step h with hx | ⟨-, -, ⟨used, hx, hrecent⟩ | ⟨p, hp, hx⟩⟩
    · exact (ih hx).imp_right hextend
    -- A result that could still be used has not expired with the pause.
    · rcases ih hx with hexpired | ho
      · exact absurd hrecent (Nat.not_lt_of_le (lifetime_le_idle hexpired))
      · exact .inr (hextend ho)
    · have ho : Origin config (start ++ pause ++ later) [] q p x.value.bits :=
        ⟨nofun, nofun, hp, by rw [hx]⟩
      exact .inr ⟨later, [st], p, rfl, by rw [hx], ho.concat hrestart hinv⟩

theorem Pause.origin_of_policy (hpause : Pause config start pause q)
    (hp : (((make config).after (start ++ pause ++ later)).manager.current
      ((make config).after (start ++ pause ++ later)).clock detached q.guild).1 = some p) :
    ∃ mid after, later = mid ++ after ∧ Origin config (start ++ pause ++ mid) after q p
      (((make config).after (start ++ pause ++ later)).policy detached q).1 := by
  have hheld := Manager.held_of_current hp
  rcases Resolver.resolve_recent ((make config).after (start ++ pause ++ later)).resolver
    ((make config).after (start ++ pause ++ later)).labels hp with
    hb | ⟨result, ⟨used, hx, hrecent⟩, hserial, hb⟩
  · exact ⟨later, [], (List.append_nil _).symm, nofun, nofun, hheld, hb⟩
  · rcases hpause.origin_of_slot hx with hexpired | ⟨mid, after, p', rfl, hserial', ho⟩
    · exact absurd hrecent (Nat.not_lt_of_le (lifetime_le_idle hexpired))
    · rw [← List.append_assoc] at hheld
      obtain rfl : p = p' := ho.eq_of_serial hheld (hserial.symm.trans hserial'.symm)
      exact ⟨mid, after, rfl, ho.lasting, ho.undropped, ho.held, hb.trans ho.answered⟩

/-- Once a question has not been asked for the lifetime of results, whatever policy allows is what
the current access vector answered for the labels of an instant after that; so it is what the labels
of now make it, if those of the entities in question have stayed the same since. -/
theorem policy_fresh_after_pause (hpause : Pause config start pause q) (later : List Step)
    (detached : Bool) :
    let s := (make config).after (start ++ pause ++ later)
    ∀ p, (s.manager.current s.clock detached q.guild).1 = some p →
      (∃ mid after, later = mid ++ after ∧
        Origin config (start ++ pause ++ mid) after q p (s.policy detached q).1) ∧
      ((∀ mid, mid <+: later → ∀ e ∈ q.entities,
        ((make config).after (start ++ pause ++ mid)).labels.typeOf? q.guild e =
          s.labels.typeOf? q.guild e) →
        (s.policy detached q).1 = q.answer p.vector s.labels) := by
  intro s p hp
  obtain ⟨mid, after, hsplit, ho⟩ := hpause.origin_of_policy hp
  refine ⟨⟨mid, after, hsplit, ho⟩, fun hsame => ?_⟩
  rw [ho.answered]
  apply Question.answer_congr
  exact hsame mid ⟨after, hsplit.symm⟩

def briefResults : Config := { Config.default with permissionCache := ⟨10, 400⟩ }

def userGuestModule : PolicyModule :=
  ⟨"roles", none, 1, ["user", "guest"], [3, 2], [0, 0], .empty, .empty⟩

def askAgain : Step := .lookup (.policy (.member 1 7)) false

def asUser : List Step :=
  [.admin (.load 1 (.compiled userGuestModule)), .admin (.compileAll 1),
    .label (.assign 1 (.member 7) 0), askAgain]

def becomeGuest : Step := .label (.assign 1 (.member 7) 1)

theorem policy_fresh_after_sleep :
    let s := (make briefResults).after (asUser ++ [becomeGuest] ++ [.sleep 500] ++ [])
    ∃ p, (s.manager.current s.clock false 1).1 = some p ∧
      (s.policy false (.member 1 7)).1 = (Question.member 1 7).answer p.vector s.labels ∧
      (s.policy false (.member 1 7)).1 = 2 := by
  intro s
  have hpause : Pause briefResults (asUser ++ [becomeGuest]) [.sleep 500] (.member 1 7) :=
    ⟨nofun, by decide +kernel⟩
  have hcurrent : (s.manager.current s.clock false 1).1.isSome = true := by decide +kernel
  obtain ⟨p, hp⟩ := Option.isSome_iff_exists.1 hcurrent
  obtain ⟨-, hfresh⟩ := policy_fresh_after_pause hpause [] false p hp
  refine ⟨p, hp, hfresh fun mid hmid e he => ?_, by decide +kernel⟩
  rw [List.prefix_nil.1 hmid]

/-- A lifetime after it became a guest, the member is answered for as a user still, because it was
asked for in between. -/
theorem stale_while_asked :
    let asked : List Step := [.sleep 250, askAgain, .sleep 250]
    let s := (make briefResults).after (asUser ++ becomeGuest :: asked)
    ((make briefResults).after asUser).clock + briefResults.permissionCache.lifetime ≤ s.clock ∧
    (∀ mid, mid <+: asked → ∀ e ∈ (Question.member 1 7).entities,
      ((make briefResults).after (asUser ++ becomeGuest :: mid)).labels.typeOf? 1 e =
        s.labels.typeOf? 1 e) ∧
    ∃ p, (s.manager.current s.clock false 1).1 = some p ∧
      (Question.member 1 7).answer p.vector s.labels = 2 ∧
      (s.policy false (.member 1 7)).1 = 3 := by
  intro asked s
  have hsame : ∀ mid ∈ asked.inits, ∀ e ∈ (Question.member 1 7).entities,
      ((make briefResults).after (asUser ++ becomeGuest :: mid)).labels.typeOf? 1 e =
        s.labels.typeOf? 1 e := by decide +kernel
  have hguest : (s.manager.current s.clock false 1).1.map
      (fun p => (Question.member 1 7).answer p.vector s.labels) = some 2 := by decide +kernel
  obtain ⟨p, hp, hanswer⟩ := Option.map_eq_some_iff.1 hguest
  refine ⟨by decide +kernel, fun mid hmid => ?_, p, hp, hanswer, by decide +kernel⟩
  exact hsame mid ((List.mem_inits _ _).2 hmid)

end Runs

end Session

end GuildPolicy
