import GuildPolicy.Snapshot.Basic

namespace GuildPolicy

def DistinctKeys {κ ν : Type} (entries : List (κ × ν)) : Prop := (entries.map Prod.fst).Nodup

instance {κ ν : Type} [DecidableEq κ] (entries : List (κ × ν)) : Decidable (DistinctKeys entries) :=
  inferInstanceAs (Decidable (List.Nodup _))

abbrev TargetRecord := List (TypeId × List (TypeId × Mask))

/-- What the bytes of a module spell, with each table still the entries that are listed for it. A
record may list a key more than once, at any level; the table that it stands for keeps one place and
one value for it. -/
structure ModuleRecord where
  name : String
  author : Option String
  version : UInt32
  types : List String
  allow : List Mask
  deny : List Mask
  allowOn : TargetRecord
  denyOn : TargetRecord
  deriving DecidableEq

structure VectorRecord where
  version : UInt32
  names : List (TypeId × String)
  ids : List (String × TypeId)
  allow : List (TypeId × Mask)
  deny : List (TypeId × Mask)
  allowOn : List (TypePair × Mask)
  denyOn : List (TypePair × Mask)
  deriving DecidableEq

structure GuildRecord where
  vector : VectorRecord
  modules : List (String × ModuleRecord)
  deriving DecidableEq

def TargetRecord.table (r : TargetRecord) : TargetTable :=
  .ofList (r.map fun e => (e.1, .ofList e.2))

def ModuleRecord.module (r : ModuleRecord) : PolicyModule :=
  ⟨r.name, r.author, r.version, r.types, r.allow, r.deny, r.allowOn.table, r.denyOn.table⟩

def VectorRecord.vector (r : VectorRecord) : AccessVector :=
  ⟨r.version, .ofList r.names, .ofList r.ids, .ofList r.allow, .ofList r.deny, .ofList r.allowOn,
    .ofList r.denyOn⟩

def GuildRecord.snapshot (r : GuildRecord) : GuildSnapshot :=
  ⟨r.vector.vector, .ofList (r.modules.map fun e => (e.1, e.2.module))⟩

def TargetRecord.Distinct (r : TargetRecord) : Prop :=
  DistinctKeys r ∧ ∀ e ∈ r, DistinctKeys e.2

structure ModuleRecord.Distinct (r : ModuleRecord) : Prop where
  allowOn : r.allowOn.Distinct
  denyOn : r.denyOn.Distinct

structure VectorRecord.Distinct (r : VectorRecord) : Prop where
  names : DistinctKeys r.names
  ids : DistinctKeys r.ids
  allow : DistinctKeys r.allow
  deny : DistinctKeys r.deny
  allowOn : DistinctKeys r.allowOn
  denyOn : DistinctKeys r.denyOn

structure GuildRecord.Distinct (r : GuildRecord) : Prop where
  vector : r.vector.Distinct
  modules : DistinctKeys r.modules
  each : ∀ e ∈ r.modules, e.2.Distinct

namespace Format

def entries {κ ν : Type} (key : Format κ) (value : Format ν) : Format (List (κ × ν)) :=
  list (pair key value)

def targetRecord : Format TargetRecord := entries word (entries word mask)

def moduleRecord : Format ModuleRecord :=
  (pair text (pair (option text) (pair word (pair (list text) (pair (list mask) (pair (list mask)
    (pair targetRecord targetRecord))))))).convert
    (fun r => (r.name, r.author, r.version, r.types, r.allow, r.deny, r.allowOn, r.denyOn))
    fun (name, author, version, types, allow, deny, allowOn, denyOn) =>
      ⟨name, author, version, types, allow, deny, allowOn, denyOn⟩

def vectorRecord : Format VectorRecord :=
  (pair word (pair (entries word text) (pair (entries text word) (pair (entries word mask)
    (pair (entries word mask) (pair (entries typePair mask) (entries typePair mask))))))).convert
    (fun r => (r.version, r.names, r.ids, r.allow, r.deny, r.allowOn, r.denyOn))
    fun (version, names, ids, allow, deny, allowOn, denyOn) =>
      ⟨version, names, ids, allow, deny, allowOn, denyOn⟩

def guildRecord : Format GuildRecord :=
  (pair vectorRecord (entries text moduleRecord)).convert (fun r => (r.vector, r.modules))
    fun (v, ms) => ⟨v, ms⟩

/-- The bytes are a header and a record, and nothing else. -/
def Spells {ρ : Type} (record : Format ρ) (bytes : List UInt8) (kind : SnapshotKind)
    (version : UInt32) (r : ρ) : Prop :=
  (pair header record).read bytes = .ok (((kind, version), r), [])

end Format

end GuildPolicy
