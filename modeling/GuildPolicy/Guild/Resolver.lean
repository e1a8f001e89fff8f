import GuildPolicy.Guild.Entity
import GuildPolicy.Guild.Manager

namespace GuildPolicy

/-- What a result is about: a member, or a member and the entity that it acts on. -/
inductive Question
  | member (guild member : Uuid)
  | target (guild member : Uuid) (target : Entity)
  deriving DecidableEq

namespace Question

def guild : Question → Uuid
  | .member g _ => g
  | .target g _ _ => g

/-- Whether the result depends on the label of an entity. -/
def involves (e : Entity) : Question → Bool
  | .member _ m => e = .member m
  | .target _ m t => e = .member m || e = t

/-- What the guild's access vector and labels answer. An entity without a type may do nothing. -/
def answer (q : Question) (v : AccessVector) (labels : Labels) : Mask :=
  match q with
  | .member g m =>
    match labels.typeOf? g (.member m) with
    | some s => v.allowed s
    | none => .empty
  | .target g m t =>
    match labels.typeOf? g (.member m), labels.typeOf? g t with
    | some s, some t => v.allowedOn ⟨s, t⟩
    | _, _ => .empty

end Question

/-- A result and the serial number of the access vector that it came from. -/
structure Resolved where
  serial : Nat
  bits : Mask
  deriving DecidableEq

/-- A cache of results, each of which is only used while the access vector that it came from is
still current. -/
structure Resolver where
  cache : IdleCache Question Resolved

namespace Resolver

def make (config : Config) : Resolver :=
  ⟨.make config.permissionCache.entries config.permissionCache.lifetime⟩

/-- The cached result for a question, if it came from the access vector `p`. -/
def cached (r : Resolver) (now : Nat) (q : Question) (p : Published) : Option Mask × Resolver :=
  match r.cache.get now q with
  | (found, cache) =>
    ((found.filter (·.serial = p.serial)).map Resolved.bits, { r with cache := cache })

/-- Answers a question from the current access vector of its guild; with nothing if there is
none. -/
def resolve (r : Resolver) (m : Manager) (labels : Labels) (now : Nat) (detached : Bool)
    (q : Question) : Mask × Resolver × Manager :=
  match m.current now detached q.guild with
  | (none, m) => (.empty, r, m)
  | (some p, m) =>
    match r.cached now q p with
    | (some bits, r) => (bits, r, m)
    | (none, r) =>
      let bits := q.answer p.vector labels
      (bits, { r with cache := r.cache.insert now q ⟨p.serial, bits⟩ }, m)

def invalidateGuild (r : Resolver) (guild : Uuid) : Resolver :=
  { r with cache := r.cache.retain fun q _ => q.guild ≠ guild }

/-- Drops the results of a guild that depend on the label of an entity. -/
def invalidateEntity (r : Resolver) (guild : Uuid) (e : Entity) : Resolver :=
  { r with cache := r.cache.retain fun q _ => q.guild ≠ guild || !q.involves e }

/-- Drops the results of a guild that depend on the label of a member. -/
def invalidateMember (r : Resolver) (guild member : Uuid) : Resolver :=
  r.invalidateEntity guild (.member member)

/-- Merges a guild's modules and, if that works, drops the guild's results. -/
def reload (r : Resolver) (m : Manager) (now : Nat) (files : Files) (guild : Uuid) :
    Except PolicyError AccessVector × Resolver × Manager :=
  match m.compileAll now files guild with
  | (.ok v, m) => (.ok v, r.invalidateGuild guild, m)
  | (.error e, m) => (.error e, r, m)

/-- The number of cached results and the limits in words. -/
def text (r : Resolver) : String :=
  "PermissionResolver \x7b cache: " ++ r.cache.text ++ ", .. \x7d"

end Resolver

/-- What is given natively, as far as policy allows it. -/
def effective (native policy : Mask) : Mask := native.inter policy

end GuildPolicy
