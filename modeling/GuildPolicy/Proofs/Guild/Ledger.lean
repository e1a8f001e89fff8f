import GuildPolicy.Proofs.AccessVector.Agree
import GuildPolicy.Proofs.IdleCache
import Mathlib.Logic.Function.Basic
import Mathlib.Logic.Relation

namespace GuildPolicy

inductive InForce
  | merged (v : AccessVector)
  | installed (s : GuildSnapshot)
  deriving DecidableEq

namespace InForce

def vector : InForce → AccessVector
  | merged v => v
  | installed s => s.vector

/-- The modules that an access vector is merged from again. -/
def From : InForce → ModuleSet → Prop
  | merged v, ms => ms.build = .ok v
  | installed s, ms => ms = s.modules

/-- Whether merging again gives back what is in force: always if it was merged, and for a snapshot
if its modules merge into the access vector beside them. -/
def Reproducible : InForce → Prop
  | merged _ => True
  | installed s => ∃ v, ModuleSet.build s.modules = .ok v ∧ v.Agree s.vector

theorem From.build_iff {f : InForce} {ms : ModuleSet} (h : f.From ms) :
    (∃ v, ms.build = .ok v ∧ v.Agree f.vector) ↔ f.Reproducible := by
  cases f with
  | merged v => exact ⟨fun _ => trivial, fun _ => ⟨v, h, .refl v⟩⟩
  | installed s =>
    cases h
    exact Iff.rfl

end InForce

abbrev Ledger := Uuid → Option InForce

namespace Ledger

def blank : Ledger := fun _ => none

def record (L : Ledger) (g : Uuid) (f : Option InForce) : Ledger := Function.update L g f

@[simp] theorem record_self (L : Ledger) (g : Uuid) (f : Option InForce) : L.record g f g = f := by
  rw [record, Function.update_self]

theorem record_of_ne {g h : Uuid} (hne : h ≠ g) (L : Ledger) (f : Option InForce) :
    L.record g f h = L h := by
  rw [record, Function.update_of_ne hne]

end Ledger

/-- The access vector in the cache, expired or not. -/
def Manager.held (m : Manager) (g : Uuid) : Option Published := m.cache.peek g

/-- What one move about a guild does to a manager and to what is in force. Every operation is a
sequence of moves. A merge that is asked for and a snapshot that is installed put an access vector
in force; merging again after a loss puts nothing in force. -/
inductive Move (files : Files) (g : Uuid) : Manager × Ledger → Manager × Ledger → Prop
  | read (m : Manager) (L : Ledger) (now : Nat) : Move files g (m, L) ((m.cached now g).2, L)
  | rebuild {m : Manager} {state : GuildState} {ms : ModuleSet} {v : AccessVector} (L : Ledger)
      (now : Nat) (hs : m.guilds.get? g = some state) (hm : state.merged = some ms)
      (hb : ms.build = .ok v) : Move files g (m, L) (m.publish now g v, L)
  /-- Makes a guild resident without modules. -/
  | enter {m : Manager} (L : Ledger) (hs : m.guilds.get? g = none) :
      Move files g (m, L) ({ m with guilds := m.guilds.insert g .blank }, L)
  /-- Drops modules and adds valid ones. -/
  | edit {m : Manager} {state : GuildState} {modules : ModuleSet} (L : Ledger)
      (hs : m.guilds.get? g = some state)
      (hv : ∀ e ∈ modules.entries, e ∈ state.modules.entries ∨
        GuildSnapshot.validateEntry e = .ok ()) :
      Move files g (m, L)
        ({ m with guilds := m.guilds.insert g { state with modules := modules } }, L)
  /-- Merges the modules as they are. -/
  | merge {m : Manager} {state : GuildState} {v : AccessVector} (L : Ledger) (now : Nat)
      (hs : m.guilds.get? g = some state) (hb : state.modules.build = .ok v) :
      Move files g (m, L)
        (({ m with guilds := m.guilds.insert g { state with merged := some state.modules } }).publish
          now g v, L.record g (some (.merged v)))
  | install {s : GuildSnapshot} {path : String} (m : Manager) (L : Ledger) (now : Nat)
      (hr : readGuildFile files path = .ok s) :
      Move files g (m, L) (m.install now g (.restored s.modules) (some s.vector),
        L.record g (some (.installed s)))
  | reset (m : Manager) (L : Ledger) (now : Nat) :
      Move files g (m, L) (m.reset now g, L.record g none)
  | evict (m : Manager) (L : Ledger) : Move files g (m, L) (m.evict g, L.record g none)
  | schedule {m : Manager} (L : Ledger) {gs : List Uuid} (hgs : ∀ h ∈ gs, h = g ∨ h ∈ m.due) :
      Move files g (m, L) ({ m with due := gs }, L)

/-- Moves that are all about one guild. -/
abbrev MovesOf (files : Files) (g : Uuid) : Manager × Ledger → Manager × Ledger → Prop :=
  Relation.ReflTransGen (Move files g)

abbrev Moves (files : Files) : Manager × Ledger → Manager × Ledger → Prop :=
  Relation.ReflTransGen fun a b => ∃ g, Move files g a b

theorem MovesOf.moves {files : Files} {g : Uuid} {a b : Manager × Ledger}
    (h : MovesOf files g a b) : Moves files a b :=
  Relation.ReflTransGen.mono (fun _ _ hm => Exists.intro g hm) a b h

section Lookups

variable {m : Manager} {now : Nat} {g h : Uuid} {v : AccessVector} {p : Published}

theorem held_publish_self : (m.publish now g v).held g = some ⟨m.nextSerial, v⟩ :=
  IdleCache.peek_insert_self

theorem held_of_held_publish (hne : h ≠ g) (hp : (m.publish now g v).held h = some p) :
    m.held h = some p :=
  IdleCache.peek_of_peek_insert hne.symm hp

theorem held_of_held_cached (hp : (m.cached now g).2.held h = some p) : m.held h = some p :=
  IdleCache.peek_of_peek_get hp

end Lookups

/-- A move about a guild leaves the states of other guilds and what is in force for them alone, and
at most loses what is held of them. -/
theorem Move.elsewhere {files : Files} {g h : Uuid} {m m' : Manager} {L L' : Ledger}
    (hm : Move files g (m, L) (m', L')) (hne : h ≠ g) :
    m'.guilds.get? h = m.guilds.get? h ∧ L' h = L h ∧
      ∀ p, m'.held h = some p → m.held h = some p := by
  cases hm with
  | read => exact ⟨rfl, rfl, fun p => held_of_held_cached⟩
  | rebuild => exact ⟨rfl, rfl, fun p => held_of_held_publish hne⟩
  | enter => exact ⟨Table.get?_insert_of_ne hne.symm, rfl, fun p hp => hp⟩
  | edit => exact ⟨Table.get?_insert_of_ne hne.symm, rfl, fun p hp => hp⟩
  | merge =>
    refine ⟨Table.get?_insert_of_ne hne.symm, Ledger.record_of_ne hne _ _, fun p hp => ?_⟩
    exact held_of_held_publish (m := { m with guilds := _ }) hne hp
  | install =>
    refine ⟨Table.get?_insert_of_ne hne.symm, Ledger.record_of_ne hne _ _, fun p hp => ?_⟩
    exact held_of_held_publish (m := { m with guilds := _ }) hne hp
  | reset =>
    refine ⟨Table.get?_insert_of_ne hne.symm, Ledger.record_of_ne hne _ _, fun p hp => ?_⟩
    rwa [Manager.held, Manager.reset, Manager.install, IdleCache.peek_remove_of_ne hne.symm] at hp
  | evict =>
    refine ⟨?_, Ledger.record_of_ne hne _ _, fun p hp => ?_⟩
    · rw [Manager.evict, Table.get?_erase, if_neg hne.symm]
    · rwa [Manager.held, Manager.evict, IdleCache.peek_remove_of_ne hne.symm] at hp
  | schedule => exact ⟨rfl, rfl, fun p hp => hp⟩

theorem MovesOf.elsewhere {files : Files} {g h : Uuid} {a b : Manager × Ledger}
    (hm : MovesOf files g a b) (hne : h ≠ g) :
    b.1.guilds.get? h = a.1.guilds.get? h ∧ b.2 h = a.2 h ∧
      ∀ p, b.1.held h = some p → a.1.held h = some p := by
  induction hm with
  | refl => exact ⟨rfl, rfl, fun _ hp => hp⟩
  | tail _ hm ih =>
    obtain ⟨hs, hL, hp⟩ := hm.elsewhere hne
    exact ⟨hs.trans ih.1, hL.trans ih.2.1, fun p hp' => ih.2.2 p (hp p hp')⟩

theorem Move.due {files : Files} {g h : Uuid} {m m' : Manager} {L L' : Ledger}
    (hm : Move files g (m, L) (m', L')) (hdue : h ∈ m'.due) : h = g ∨ h ∈ m.due := by
  cases hm with
  | schedule _ hgs => exact hgs h hdue
  | read | rebuild | enter | edit | merge | install | reset | evict => exact .inr hdue

theorem MovesOf.due {files : Files} {g h : Uuid} {a b : Manager × Ledger}
    (hm : MovesOf files g a b) (hdue : h ∈ b.1.due) : h = g ∨ h ∈ a.1.due := by
  induction hm with
  | refl => exact .inr hdue
  | tail _ hm ih =>
    rcases hm.due hdue with hg | hdue
    · exact .inl hg
    · exact ih hdue

theorem Move.config {files : Files} {g : Uuid} {m m' : Manager} {L L' : Ledger}
    (hm : Move files g (m, L) (m', L')) : m'.config = m.config := by
  cases hm with
  | read | rebuild | enter | edit | merge | install | reset | evict | schedule => rfl

theorem Move.lifetime {files : Files} {g : Uuid} {m m' : Manager} {L L' : Ledger}
    (hm : Move files g (m, L) (m', L')) : m'.cache.lifetime = m.cache.lifetime := by
  cases hm with
  | read => exact IdleCache.lifetime_get
  | rebuild | merge | install => exact IdleCache.lifetime_insert
  | enter | edit | reset | evict | schedule => rfl

theorem Moves.config {files : Files} {a b : Manager × Ledger} (hm : Moves files a b) :
    b.1.config = a.1.config := by
  induction hm with
  | refl => rfl
  | tail _ hm ih =>
    obtain ⟨g, hm⟩ := hm
    exact hm.config.trans ih

theorem Moves.lifetime {files : Files} {a b : Manager × Ledger} (hm : Moves files a b) :
    b.1.cache.lifetime = a.1.cache.lifetime := by
  induction hm with
  | refl => rfl
  | tail _ hm ih =>
    obtain ⟨g, hm⟩ := hm
    exact hm.lifetime.trans ih

end GuildPolicy
