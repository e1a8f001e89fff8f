import GuildPolicy.Proofs.Guild.Lookups

namespace GuildPolicy

namespace Question

variable {q : Question} {v : AccessVector} {labels labels' : Labels}

/-- The entities whose labels a result depends on. -/
def entities : Question → List Entity
  | .member _ m => [.member m]
  | .target _ m t => [.member m, t]

theorem involves_iff {e : Entity} : q.involves e = true ↔ e ∈ q.entities := by
  cases q with
  | member g m => rw [involves, entities, decide_eq_true_iff, List.mem_singleton]
  | target g m t =>
    rw [involves, entities, Bool.or_eq_true, decide_eq_true_iff, decide_eq_true_iff, List.mem_cons,
      List.mem_singleton]

theorem answer_congr
    (h : ∀ e ∈ q.entities, labels.typeOf? q.guild e = labels'.typeOf? q.guild e) :
    q.answer v labels = q.answer v labels' := by
  cases q with
  | member g m =>
    have hm : labels.typeOf? g (.member m) = labels'.typeOf? g (.member m) :=
      h _ (List.mem_singleton.2 rfl)
    rw [answer, answer, hm]
  | target g m t =>
    have hm : labels.typeOf? g (.member m) = labels'.typeOf? g (.member m) :=
      h _ (List.mem_cons_self ..)
    have ht : labels.typeOf? g t = labels'.typeOf? g t :=
      h _ (List.mem_cons_of_mem _ (List.mem_singleton.2 rfl))
    rw [answer, answer, hm, ht]

end Question

namespace Resolver

variable {r : Resolver} {m : Manager} {labels : Labels} {now : Nat} {detached : Bool}
variable {q q' : Question} {g : Uuid} {p : Published} {result : Resolved} {x : Slot Resolved}

/-- The result in the cache, expired or not. -/
def kept (r : Resolver) (q : Question) : Option Resolved := r.cache.peek q

/-- The result in the cache and when it was last used. -/
def slot? (r : Resolver) (q : Question) : Option (Slot Resolved) := r.cache.slots.get? q

theorem kept_eq_some_iff :
    r.kept q = some result ↔ ∃ x, r.slot? q = some x ∧ x.value = result := Option.map_eq_some_iff

/-- Whether a question can be answered with a result that was used less than a lifetime ago. -/
def Recent (r : Resolver) (now : Nat) (q : Question) (result : Resolved) : Prop :=
  ∃ used, r.slot? q = some ⟨result, used⟩ ∧ now - used < r.cache.lifetime

theorem Recent.kept (h : r.Recent now q result) : r.kept q = some result := by
  obtain ⟨used, hslot, -⟩ := h
  exact kept_eq_some_iff.2 ⟨_, hslot, rfl⟩

theorem resolve_of_none (h : (m.current now detached q.guild).1 = none) :
    (r.resolve m labels now detached q).1 = .empty := by
  rw [resolve]
  split
  · rfl
  · next hc =>
    rw [hc] at h
    cases h

/-- What is answered from an access vector is fresh, or a recent result under its number. -/
theorem resolve_recent (r : Resolver) (labels : Labels)
    (h : (m.current now detached q.guild).1 = some p) :
    (r.resolve m labels now detached q).1 = q.answer p.vector labels ∨
      ∃ result, r.Recent now q result ∧ result.serial = p.serial ∧
        (r.resolve m labels now detached q).1 = result.bits := by
  rw [resolve]
  split
  · next hc =>
    rw [hc] at h
    cases h
  next p' m' hc =>
  rw [hc] at h
  cases h
  split
  · next bits r' hr =>
    obtain ⟨result, hresult, hbits⟩ := Option.map_eq_some_iff.1 (congrArg Prod.fst hr)
    rw [Option.filter_eq_some_iff] at hresult
    exact .inr ⟨result, IdleCache.slot_of_get hresult.1, of_decide_eq_true hresult.2, hbits.symm⟩
  · exact .inl rfl

theorem slot_of_resolve (h : (r.resolve m labels now detached q).2.1.slot? q' = some x) :
    r.slot? q' = some x ∨ q' = q ∧ x.lastUse = now ∧ (r.Recent now q x.value ∨
      ∃ p, (m.current now detached q.guild).1 = some p ∧
        x.value = ⟨p.serial, q.answer p.vector labels⟩) := by
  rw [resolve] at h
  split at h
  · exact .inl h
  next p m' hc =>
  have hcached (h : (r.cached now q p).2.slot? q' = some x) :
      r.slot? q' = some x ∨ q' = q ∧ x.lastUse = now ∧ (r.Recent now q x.value ∨
        ∃ p, (m.current now detached q.guild).1 = some p ∧
          x.value = ⟨p.serial, q.answer p.vector labels⟩) := by
    rcases IdleCache.slot_of_slot_get h with h | ⟨hq, hnow, hget⟩
    · exact .inl h
    · exact .inr ⟨hq, hnow, .inl (IdleCache.slot_of_get hget)⟩
  split at h
  · next bits r' hr =>
    obtain rfl : (r.cached now q p).2 = r' := congrArg Prod.snd hr
    exact hcached h
  · next r' hr =>
    obtain rfl : (r.cached now q p).2 = r' := congrArg Prod.snd hr
    rcases IdleCache.slot_of_insert h with h | ⟨hq, rfl⟩
    · exact hcached h
    · exact .inr ⟨hq, rfl, .inr ⟨p, congrArg Prod.fst hc, rfl⟩⟩

theorem kept_invalidateGuild :
    (r.invalidateGuild g).kept q = some result ↔ r.kept q = some result ∧ q.guild ≠ g := by
  rw [kept, invalidateGuild, IdleCache.peek_retain, Option.filter_eq_some_iff, decide_eq_true_iff,
    kept]

theorem kept_invalidateEntity {e : Entity} :
    (r.invalidateEntity g e).kept q = some result ↔
      r.kept q = some result ∧ ¬(q.guild = g ∧ e ∈ q.entities) := by
  rw [kept, invalidateEntity, IdleCache.peek_retain, Option.filter_eq_some_iff, kept,
    ← Question.involves_iff]
  simp only [ne_eq, decide_not, Bool.or_eq_true, Bool.not_eq_eq_eq_not, Bool.not_true,
    decide_eq_false_iff_not, not_and, Bool.not_eq_true, Decidable.imp_iff_not_or]

theorem lifetime_resolve :
    (r.resolve m labels now detached q).2.1.cache.lifetime = r.cache.lifetime := by
  rw [resolve]
  split
  · rfl
  next p m' hc =>
  split
  · next bits r' hr =>
    obtain rfl : (r.cached now q p).2 = r' := congrArg Prod.snd hr
    exact IdleCache.lifetime_get
  · next r' hr =>
    obtain rfl : (r.cached now q p).2 = r' := congrArg Prod.snd hr
    exact IdleCache.lifetime_insert.trans IdleCache.lifetime_get

theorem slot_of_reload {files : Files} {g : Uuid}
    (h : (r.reload m now files g).2.1.slot? q = some x) : r.slot? q = some x := by
  rw [reload] at h
  split at h
  · exact IdleCache.slot_of_retain h
  · exact h

theorem lifetime_reload {files : Files} {g : Uuid} :
    (r.reload m now files g).2.1.cache.lifetime = r.cache.lifetime := by
  rw [reload]
  split
  · rfl
  · rfl

end Resolver

end GuildPolicy
