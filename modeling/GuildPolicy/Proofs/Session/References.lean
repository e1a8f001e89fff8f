import GuildPolicy.Proofs.AccessVector.Index
import GuildPolicy.Proofs.Session.Run
import GuildPolicy.Proofs.Snapshot.Boundaries

namespace GuildPolicy

namespace Manager

variable {m : Manager} {now : Nat} {detached : Bool} {g : Uuid} {p : Published}
variable {a a' b b' : TypeRef}

theorem permissionsOf_congr (hp : (m.current now detached g).1 = some p)
    (ha : a.resolve? p.vector = a'.resolve? p.vector) :
    m.permissionsOf now detached g a = m.permissionsOf now detached g a' := by
  rw [permissionsOf_eq, permissionsOf_eq, hp, Option.elim, Option.elim, TypeRef.allowed,
    TypeRef.allowed, ha]

theorem pairOf_congr (hp : (m.current now detached g).1 = some p)
    (ha : a.resolve? p.vector = a'.resolve? p.vector)
    (hb : b.resolve? p.vector = b'.resolve? p.vector) (read : AccessVector → TypePair → Mask) :
    m.pairOf now detached g a b read = m.pairOf now detached g a' b' read := by
  rw [pairOf_eq, pairOf_eq, hp, Option.elim, Option.elim, TypeRef.onPair, TypeRef.onPair, ha, hb]

end Manager

theorem AccessVector.valid_of_decodeGuild {bytes : List UInt8} {snap : GuildSnapshot}
    (h : decodeGuild bytes = .ok snap) : snap.vector.Valid :=
  (GuildSnapshot.validate_eq_ok_iff.1 (decodeGuild_eq_ok_iff.1 h).2).1

namespace Session

variable {s : Session} {detached : Bool} {g : Uuid} {p : Published} {n : String} {i : TypeId}

/-- Two ways to refer to a type between which no look-up for a guild tells the difference, be it in
what it answers or in what it leaves. -/
structure Interchangeable (s : Session) (detached : Bool) (g : Uuid) (a b : TypeRef) : Prop where
  permissions : s.lookup detached (.permissions g a) = s.lookup detached (.permissions g b)
  permissionsOn : ∀ other,
    s.lookup detached (.permissionsOn g a other) = s.lookup detached (.permissionsOn g b other) ∧
    s.lookup detached (.permissionsOn g other a) = s.lookup detached (.permissionsOn g other b)
  denialsOn : ∀ other,
    s.lookup detached (.denialsOn g a other) = s.lookup detached (.denialsOn g b other) ∧
    s.lookup detached (.denialsOn g other a) = s.lookup detached (.denialsOn g other b)

theorem interchangeable_of_resolve {a b : TypeRef}
    (hp : (s.manager.current s.clock detached g).1 = some p)
    (h : a.resolve? p.vector = b.resolve? p.vector) : s.Interchangeable detached g a b := by
  constructor
  case permissions =>
    rw [lookup, lookup, Manager.permissionsOf_congr hp h]
  case permissionsOn =>
    intro other
    simp only [lookup, Manager.permissionsOn]
    rw [Manager.pairOf_congr hp h rfl, Manager.pairOf_congr hp (a := other) rfl h]
    exact ⟨rfl, rfl⟩
  case denialsOn =>
    intro other
    simp only [lookup, Manager.denialsOn]
    rw [Manager.pairOf_congr hp h rfl, Manager.pairOf_congr hp (a := other) rfl h]
    exact ⟨rfl, rfl⟩

theorem interchangeable_of_inverse (hp : (s.manager.current s.clock detached g).1 = some p)
    (h : ∀ n i, p.vector.typeId? n = some i ↔ p.vector.typeName? i = some n)
    (hn : p.vector.typeName? i = some n) : s.Interchangeable detached g (.name n) (.id i) :=
  interchangeable_of_resolve hp ((h n i).2 hn)

/-- An access vector passes the check exactly if its version is understood, its names and its ids
lead to each other, and it speaks of named types only. Names and ids lead to each other in whatever
was merged, from valid modules or not, and in whatever was decoded, so that a type is answered for
by name as by id. In every run it is, since whatever is current would pass the check. -/
theorem validate_iff_indexed :
    (∀ v : AccessVector, v.validate = .ok () ↔ v.Indexed) ∧
    (∀ v : AccessVector, ((∃ ms, AccessVector.build ms = .ok v) ∨
        ∃ bytes snap, decodeGuild bytes = .ok snap ∧ snap.vector = v) →
      (∀ n i, v.typeId? n = some i ↔ v.typeName? i = some n) ∧
      ∀ (s : Session) (detached : Bool) (g : Uuid) (p : Published),
        (s.manager.current s.clock detached g).1 = some p → p.vector = v →
        ∀ n i, v.typeName? i = some n → s.Interchangeable detached g (.name n) (.id i)) ∧
    ∀ (config : Config) (steps : List Step) (detached : Bool) (g : Uuid) (p : Published),
      let s := (make config).after steps
      (s.manager.current s.clock detached g).1 = some p → p.vector.Indexed ∧
        ∀ n i, p.vector.typeName? i = some n → s.Interchangeable detached g (.name n) (.id i) := by
  refine ⟨fun v => ?_, ?_, ?_⟩
  · rw [v.validate_eq_ok_iff, AccessVector.valid_iff_indexed]
  · intro v hsource
    have hinverse : ∀ n i, v.typeId? n = some i ↔ v.typeName? i = some n := by
      rcases hsource with ⟨ms, hms⟩ | ⟨bytes, snap, hsnap, rfl⟩
      · exact AccessVector.inverse_of_build hms
      · have hvalid := AccessVector.valid_of_decodeGuild hsnap
        exact (AccessVector.valid_iff_indexed.1 hvalid).inverse
    refine ⟨hinverse, ?_⟩
    rintro s detached g p hp rfl n i hn
    exact interchangeable_of_inverse hp hinverse hn
  · intro config steps detached g p s hp
    have hvalid := (valid config steps).held g p (Manager.held_of_current hp)
    have hindexed := AccessVector.valid_iff_indexed.1 hvalid
    exact ⟨hindexed, fun n i hn => interchangeable_of_inverse hp hindexed.inverse hn⟩

/-- Members are type 7 and guests type 3, and members may do 1 to guests. -/
def sparse : AccessVector where
  version := 1
  names := .ofList [(7, "member"), (3, "guest")]
  ids := .ofList [("guest", 3), ("member", 7)]
  allow := .ofList [(7, 2)]
  deny := .empty
  allowOn := .ofList [(⟨7, 3⟩, 1)]
  denyOn := .empty

/-- The same with one way of the index crossed. -/
def crossed : AccessVector := { sparse with ids := .ofList [("guest", 7), ("member", 3)] }

def installSparse : List Step :=
  [.file (.write "guild.avc" (encodeGuild ⟨sparse, .empty⟩)), .admin (.loadVector 1 "guild.avc")]

theorem validate_iff_indexed_sparse :
    let s := (make .default).after installSparse
    sparse.Indexed ∧ ¬crossed.Indexed ∧
    ∃ p, (s.manager.current s.clock false 1).1 = some p ∧ p.vector.Indexed ∧
      s.Interchangeable false 1 (.name "member") (.id 7) := by
  intro s
  obtain ⟨hvalidate, hsource, hrun⟩ := validate_iff_indexed
  have hsparse : sparse.validate = .ok () := by decide
  have hcrossed : crossed.validate ≠ .ok () := by decide
  have hdecode : decodeGuild (encodeGuild ⟨sparse, .empty⟩) = .ok ⟨sparse, .empty⟩ := by
    decide +kernel
  obtain ⟨p, hp⟩ : ∃ p, (s.manager.current s.clock false 1).1 = some p := ⟨_, rfl⟩
  have hvector : (s.manager.current s.clock false 1).1.map (·.vector) = some sparse := by
    decide +kernel
  rw [hp] at hvector
  obtain ⟨-, hrefs⟩ := hsource sparse (.inr ⟨_, _, hdecode, rfl⟩)
  have hmember : sparse.typeName? 7 = some "member" := by decide
  exact ⟨(hvalidate sparse).1 hsparse, fun h => hcrossed ((hvalidate crossed).2 h), p, hp,
    (hrun .default installSparse false 1 p hp).1,
    hrefs s false 1 p hp (Option.some.inj hvector) "member" 7 hmember⟩

end Session

end GuildPolicy
