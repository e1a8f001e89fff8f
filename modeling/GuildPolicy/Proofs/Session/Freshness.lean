import GuildPolicy.Proofs.Guild.Resolver
import GuildPolicy.Proofs.Guild.Serials
import GuildPolicy.Proofs.Session.Run
import Mathlib.Data.List.Induction

namespace GuildPolicy

/-- The question that a look-up puts to the resolver. -/
def Lookup.question? : Lookup → Option Question
  | .policy q | .effective q _ => some q
  | .holds q _ required => if required = .empty then none else some q
  | .current _ | .permissions _ _ | .permissionsOn _ _ _ | .denialsOn _ _ _ => none

def Step.Asks (q : Question) : Step → Prop
  | .lookup l _ => l.question? = some q
  | _ => False

/-- The steps that drop the result of a question. -/
def Step.Invalidates (q : Question) : Step → Prop
  | .invalidateGuild g => q.guild = g
  | .invalidateEntity g e => q.guild = g ∧ e ∈ q.entities
  | .invalidateMember g m => q.guild = g ∧ .member m ∈ q.entities
  | _ => False

/-- The step that should follow a change of labels. -/
def LabelStep.matching? : LabelStep → Option Step
  | .assign g e _ | .unassign g e => some (.invalidateEntity g e)
  | .setDefault g _ | .clear g => some (.invalidateGuild g)
  | .typeOf _ _ => none

/-- Every change of labels is followed by its invalidation. -/
def Matched : List Step → Prop
  | [] => True
  | .label l :: steps => (∀ inv, l.matching? = some inv → inv ∈ steps) ∧ Matched steps
  | _ :: steps => Matched steps

theorem Matched.tail {st : Step} {steps : List Step} (h : Matched (st :: steps)) :
    Matched steps := by
  cases st with
  | label => exact h.2
  | admin | lookup | file | invalidateGuild | invalidateEntity | invalidateMember
  | describeResolver | restart | sleep => exact h

theorem Matched.mem {before after : List Step} {l : LabelStep} {inv : Step}
    (h : Matched (before ++ .label l :: after)) (hinv : l.matching? = some inv) : inv ∈ after := by
  induction before with
  | nil => exact h.1 inv hinv
  | cons st before ih => exact ih h.tail

section Labels

variable {labels : Labels} {q : Question} {v : AccessVector} {g : Uuid} {e : Entity} {id : TypeId}

theorem Labels.answer_assign (h : ¬(q.guild = g ∧ e ∈ q.entities)) :
    q.answer v (labels.assign g e id) = q.answer v labels := by
  refine Question.answer_congr fun e' he' => ?_
  have hne : (g, e) ≠ (q.guild, e') := by
    intro heq
    cases heq
    exact h ⟨rfl, he'⟩
  rw [typeOf?, typeOf?, assign, Table.get?_insert_of_ne hne]

theorem Labels.answer_unassign (h : ¬(q.guild = g ∧ e ∈ q.entities)) :
    q.answer v (labels.unassign g e).2 = q.answer v labels := by
  refine Question.answer_congr fun e' he' => ?_
  have hne : (g, e) ≠ (q.guild, e') := by
    intro heq
    cases heq
    exact h ⟨rfl, he'⟩
  rw [typeOf?, typeOf?, unassign, Table.get?_erase, if_neg hne]

theorem Labels.answer_setDefault (h : q.guild ≠ g) :
    q.answer v (labels.setDefault g id) = q.answer v labels := by
  refine Question.answer_congr fun e' _ => ?_
  rw [typeOf?, typeOf?, setDefault, Table.get?_insert_of_ne h.symm]

theorem Labels.answer_clear (h : q.guild ≠ g) :
    q.answer v (labels.clear g) = q.answer v labels := by
  refine Question.answer_congr fun e' _ => ?_
  rw [typeOf?, typeOf?, clear, Table.get?_erase, if_neg h.symm, Table.get?_filter]
  congr 1
  cases labels.assigned.get? (q.guild, e') with
  | none => rfl
  | some id => exact Option.filter_some_pos (decide_eq_true h)

/-- A change of labels whose invalidation would not drop an answer does not change it. -/
theorem Labels.answer_step {l : LabelStep}
    (h : ∀ inv, l.matching? = some inv → ¬inv.Invalidates q) :
    q.answer v (labels.step l).2 = q.answer v labels := by
  cases l with
  | assign g e id => exact answer_assign (h _ rfl)
  | unassign g e => exact answer_unassign (h _ rfl)
  | setDefault g id => exact answer_setDefault (h _ rfl)
  | clear g => exact answer_clear (h _ rfl)
  | typeOf g e => rfl

end Labels

namespace Session

section Steps

variable {s : Session} {q : Question} {x : Slot Resolved} {st : Step}

/-- A slot that a look-up has used: with a recent result, or with a new one. -/
def Used (s : Session) (q : Question) (x : Slot Resolved) : Prop :=
  x.lastUse = s.clock ∧ (s.resolver.Recent s.clock q x.value ∨
    ∃ p, s.manager.held q.guild = some p ∧ x.value = ⟨p.serial, q.answer p.vector s.labels⟩)

theorem slot_of_admin {st : AdminStep} (h : (s.admin st).2.resolver.slot? q = some x) :
    s.resolver.slot? q = some x := by
  cases st with
  | load g input | storeModule path input =>
    simp only [admin] at h
    split at h
    · exact h
    · exact h
  | reload g => exact Resolver.slot_of_reload h
  | loadFile | unload | modules | compileAll | vector | storeVector | loadVector
  | storeGuild | loadGuild | compileFile | evict | reset | resident => exact h

theorem slot_of_policy {detached : Bool} {q' : Question}
    (h : (s.policy detached q').2.resolver.slot? q = some x) :
    s.resolver.slot? q = some x ∨ q' = q ∧ s.Used q x := by
  rcases Resolver.slot_of_resolve h with hx | ⟨rfl, hnow, hrecent | ⟨p, hp, hx⟩⟩
  · exact .inl hx
  · exact .inr ⟨rfl, hnow, .inl hrecent⟩
  · exact .inr ⟨rfl, hnow, .inr ⟨p, Manager.held_of_current hp, hx⟩⟩

theorem slot_of_lookup {detached : Bool} {l : Lookup}
    (h : (s.lookup detached l).2.resolver.slot? q = some x) :
    s.resolver.slot? q = some x ∨ l.question? = some q ∧ s.Used q x := by
  cases l with
  | policy q' | effective q' native =>
    rcases slot_of_policy h with hx | ⟨rfl, hx⟩
    · exact .inl hx
    · exact .inr ⟨rfl, hx⟩
  | holds q' native required =>
    simp only [lookup] at h
    rw [Lookup.question?]
    split at h
    · exact .inl h
    · next hrequired =>
      rw [if_neg hrequired]
      rcases slot_of_policy h with hx | ⟨rfl, hx⟩
      · exact .inl hx
      · exact .inr ⟨rfl, hx⟩
  | current | permissions | permissionsOn | denialsOn => exact .inl h

theorem slot_of_step (h : (s.step st).2.resolver.slot? q = some x) :
    s.resolver.slot? q = some x ∨ st.Asks q ∧ s.Used q x := by
  cases st with
  | admin st => exact .inl (slot_of_admin h)
  | lookup l detached => exact slot_of_lookup h
  | label | file | describeResolver | sleep => exact .inl h
  | invalidateGuild | invalidateEntity | invalidateMember => exact .inl (IdleCache.slot_of_retain h)
  | restart => cases h

theorem undropped_of_step {r : Resolved} (h : (s.step st).2.resolver.kept q = some r) :
    st ≠ .restart ∧ ¬st.Invalidates q := by
  cases st with
  | admin | lookup | label | file | describeResolver | sleep => exact ⟨nofun, nofun⟩
  | invalidateGuild g => exact ⟨nofun, (Resolver.kept_invalidateGuild.1 h).2⟩
  | invalidateEntity g e | invalidateMember g m =>
    exact ⟨nofun, (Resolver.kept_invalidateEntity.1 h).2⟩
  | restart => cases h

/-- What is kept after a step was kept before or has just been answered. -/
theorem kept_of_step {r : Resolved} (h : (s.step st).2.resolver.kept q = some r) :
    s.resolver.kept q = some r ∨ ∃ p, s.manager.held q.guild = some p ∧
      r = ⟨p.serial, q.answer p.vector s.labels⟩ := by
  obtain ⟨x, hx, rfl⟩ := Resolver.kept_eq_some_iff.1 h
  rcases slot_of_step hx with hx | ⟨-, -, hrecent | hnew⟩
  · exact .inl (Resolver.kept_eq_some_iff.2 ⟨x, hx, rfl⟩)
  · exact .inl hrecent.kept
  · exact .inr hnew

theorem answer_step {v : AccessVector}
    (h : ∀ l, st = .label l → ∀ inv, l.matching? = some inv → ¬inv.Invalidates q) :
    q.answer v (s.step st).2.labels = q.answer v s.labels := by
  change q.answer v (s.act st).2.labels = _
  cases st with
  | label l => exact Labels.answer_step (h l rfl)
  | admin st => exact congrArg (q.answer v) (s.admin_frame st).2
  | lookup l detached => exact congrArg (q.answer v) (s.lookup_frame detached l).2
  | file | describeResolver | sleep | invalidateGuild | invalidateEntity | invalidateMember
  | restart => rfl

end Steps

section Runs

variable {config : Config} {s : Session} {steps : List Step} {q : Question} {x : Resolved}

theorem answer_after {v : AccessVector}
    (h : ∀ l, .label l ∈ steps → ∀ inv, l.matching? = some inv → ¬inv.Invalidates q) :
    q.answer v (s.after steps).labels = q.answer v s.labels := by
  induction steps generalizing s with
  | nil => rfl
  | cons st steps ih =>
    rw [after_cons, ih fun l hl => h l (List.mem_cons_of_mem _ hl)]
    exact answer_step fun l hl => h l (hl ▸ List.mem_cons_self ..)

/-- A result that was answered between two parts of a run, and not dropped in the second one. -/
structure Origin (config : Config) (before after : List Step) (q : Question) (p : Published)
    (bits : Mask) : Prop where
  lasting : .restart ∉ after
  undropped : ∀ st ∈ after, ¬st.Invalidates q
  held : ((make config).after before).manager.held q.guild = some p
  answered : bits = q.answer p.vector ((make config).after before).labels

theorem Origin.concat {before after : List Step} {p : Published} {bits : Mask} {st : Step}
    (ho : Origin config before after q p bits) (hrestart : st ≠ .restart)
    (hinv : ¬st.Invalidates q) : Origin config before (after ++ [st]) q p bits := by
  refine ⟨?_, ?_, ho.held, ho.answered⟩
  · rw [List.mem_append, List.mem_singleton, not_or]
    exact ⟨ho.lasting, Ne.symm hrestart⟩
  · intro st' hst'
    rcases List.mem_append.1 hst' with hst' | hst'
    · exact ho.undropped st' hst'
    · exact List.mem_singleton.1 hst' ▸ hinv

/-- Without a restart in between, one number stands for one access vector. -/
theorem Origin.eq_of_serial {before after : List Step} {p p' : Published} {bits : Mask}
    (ho : Origin config before after q p' bits)
    (hp : ((make config).after (before ++ after)).manager.held q.guild = some p)
    (hserial : p.serial = p'.serial) : p = p' := by
  have hlater := after_later (s := (make config).after before) ho.lasting
  rw [← after_append] at hlater
  exact hlater.eq_of_serial (after_numbered config before) ho.held hp hserial

theorem origin_of_kept (h : ((make config).after steps).resolver.kept q = some x) :
    ∃ before after p, steps = before ++ after ∧ p.serial = x.serial ∧
      Origin config before after q p x.bits := by
  induction steps using List.reverseRecOn with
  | nil => cases h
  | append_singleton steps st ih =>
    rw [after_concat] at h
    obtain ⟨hrestart, hinv⟩ := undropped_of_step h
    rcases kept_of_step h with hx | ⟨p, hp, rfl⟩
    · obtain ⟨before, after, p, rfl, hserial, ho⟩ := ih hx
      exact ⟨before, after ++ [st], p, List.append_assoc .., hserial, ho.concat hrestart hinv⟩
    -- The answer was given in this very step, from what was there before it.
    · have ho : Origin config steps [] q p (q.answer p.vector ((make config).after steps).labels) :=
        ⟨nofun, nofun, hp, rfl⟩
      exact ⟨steps, [st], p, rfl, rfl, ho.concat hrestart hinv⟩

/-- An answer from a current access vector has an origin at which that access vector was held. -/
theorem origin_of_policy {detached : Bool} {p : Published}
    (hp : (((make config).after steps).manager.current ((make config).after steps).clock detached
      q.guild).1 = some p) :
    ∃ before after, steps = before ++ after ∧
      Origin config before after q p (((make config).after steps).policy detached q).1 := by
  rcases Resolver.resolve_recent ((make config).after steps).resolver
    ((make config).after steps).labels hp with hb | ⟨r, hr, hserial, hb⟩
  · exact ⟨steps, [], (List.append_nil _).symm, nofun, nofun, Manager.held_of_current hp, hb⟩
  · obtain ⟨before, after, p', rfl, hserial', ho⟩ := origin_of_kept hr.kept
    obtain rfl : p = p' :=
      ho.eq_of_serial (Manager.held_of_current hp) (hserial.symm.trans hserial'.symm)
    exact ⟨before, after, rfl, ho.lasting, ho.undropped, ho.held, hb.trans ho.answered⟩

/-- What policy allows a member is nothing without a current access vector. Otherwise it is what that
access vector answered for the labels of one instant, at which it was held already and after which
nothing was to drop the answer; and if every change of labels was followed by its invalidation, it
is what the labels of now make it. -/
theorem policy_fresh (config : Config) (steps : List Step) (detached : Bool) (q : Question) :
    let s := (make config).after steps
    ((s.manager.current s.clock detached q.guild).1 = none → (s.policy detached q).1 = .empty) ∧
    ∀ p, (s.manager.current s.clock detached q.guild).1 = some p →
      (∃ before after, steps = before ++ after ∧
        Origin config before after q p (s.policy detached q).1) ∧
      (Matched steps → (s.policy detached q).1 = q.answer p.vector s.labels) := by
  refine ⟨Resolver.resolve_of_none, fun p hp => ?_⟩
  obtain ⟨before, after, rfl, ho⟩ := origin_of_policy hp
  refine ⟨⟨before, after, rfl, ho⟩, fun hmatched => ?_⟩
  rw [ho.answered, after_append]
  -- A change of labels since would be followed by an invalidation that the answer outlived.
  refine (answer_after fun l hl inv hinv => ?_).symm
  obtain ⟨between, rest, rfl⟩ := List.mem_iff_append.1 hl
  rw [← List.append_assoc] at hmatched
  have hmem : inv ∈ rest := hmatched.mem hinv
  exact ho.undropped inv (List.mem_append_right _ (List.mem_cons_of_mem _ hmem))

/-- A member is a user when first asked for, and then a guest. -/
def relabelled : List Step :=
  [.admin (.load 1 (.compiled ⟨"roles", none, 1, ["user", "guest"], [3, 2], [0, 0], .empty, .empty⟩)),
    .admin (.compileAll 1), .label (.assign 1 (.member 7) 0), .invalidateEntity 1 (.member 7),
    .lookup (.policy (.member 1 7)) false, .label (.assign 1 (.member 7) 1),
    .invalidateEntity 1 (.member 7)]

theorem policy_fresh_relabelled :
    let s := (make .default).after relabelled
    ∃ p, (s.manager.current s.clock false 1).1 = some p ∧
      (s.policy false (.member 1 7)).1 = (Question.member 1 7).answer p.vector s.labels ∧
      (s.policy false (.member 1 7)).1 = 2 := by
  intro s
  obtain ⟨p, hp⟩ : ∃ p, (s.manager.current s.clock false 1).1 = some p := ⟨_, rfl⟩
  have hmatched : Matched relabelled := by
    refine ⟨fun inv hinv => ?_, fun inv hinv => ?_, trivial⟩
    · cases hinv
      exact List.mem_cons_self ..
    · cases hinv
      exact List.mem_cons_self ..
  obtain ⟨_, hfresh⟩ := policy_fresh .default relabelled false (.member 1 7)
  exact ⟨p, hp, (hfresh p hp).2 hmatched, by decide +kernel⟩

end Runs

end Session

end GuildPolicy
