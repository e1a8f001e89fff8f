import GuildPolicy.Proofs.Guild.Lookups
import GuildPolicy.Proofs.IdleCache.Frame

namespace GuildPolicy

open IdleCache

section Manager

variable {files : Files} {g h : Uuid} {m m' : Manager} {L L' : Ledger}

theorem Move.beside (hm : Move files g (m, L) (m', L')) : Beside g m.cache m'.cache := by
  cases hm with
  | read => exact beside_get
  | rebuild | merge | install => exact beside_insert
  | reset | evict => exact beside_remove
  | enter | edit | schedule => exact .refl g m.cache

theorem MovesOf.beside {a b : Manager × Ledger} (hm : MovesOf files g a b) :
    Beside g a.1.cache b.1.cache := by
  induction hm with
  | refl => exact .refl g _
  | tail _ hm ih => exact ih.trans hm.beside

theorem Manager.current_of_keeps {now now' : Nat} (hkeeps : m.cache.Keeps m'.cache h)
    (hlifetime : m'.cache.lifetime = m.cache.lifetime) (hle : now ≤ now') (detached : Bool) :
    (m'.current now' detached h).1 = (m.current now detached h).1 ∨
      (m'.current now' detached h).1 = none ∧ m.cache.Loses m'.cache now' h := by
  rw [current_fst, current_fst]
  exact hkeeps.get hlifetime hle

end Manager

namespace Resolver

variable {r : Resolver} {m : Manager} {labels : Labels} {now : Nat} {detached : Bool}
variable {q q' : Question} {g : Uuid}

theorem resolve_beside :
    Beside q r.cache (r.resolve m labels now detached q).2.1.cache := by
  rw [resolve]
  split
  · exact .refl q r.cache
  · next p m' _ =>
    have hread : Beside q r.cache (r.cached now q p).2.cache := beside_get
    split
    · next hr =>
      rw [hr] at hread
      exact hread
    · next hr =>
      rw [hr] at hread
      exact hread.trans beside_insert

theorem invalidateGuild_keeps (hne : q.guild ≠ g) :
    r.cache.Keeps (r.invalidateGuild g).cache q :=
  keeps_retain fun _ => decide_eq_true hne

theorem invalidateEntity_keeps (e : Entity) (hne : q.guild ≠ g) :
    r.cache.Keeps (r.invalidateEntity g e).cache q := by
  refine keeps_retain fun _ => ?_
  rw [decide_eq_true hne, Bool.true_or]

theorem reload_keeps {files : Files} (hne : q.guild ≠ g) :
    r.cache.Keeps (r.reload m now files g).2.1.cache q := by
  rw [reload]
  split
  · exact invalidateGuild_keeps hne
  · exact .inl rfl

end Resolver

end GuildPolicy
