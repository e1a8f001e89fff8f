import GuildPolicy.Proofs.AccessVector.Conflicts
import Mathlib.Data.List.Perm.Subperm
import Mathlib.Data.List.ProdSigma
import Mathlib.Data.Prod.Basic

namespace GuildPolicy

namespace Table

variable {κ ν : Type}

theorem nodup_map_swap (t : Table κ ν) : (t.entries.map Prod.swap).Nodup :=
  t.nodup_entries.map Prod.swap_injective

variable [DecidableEq κ] [DecidableEq ν] {a : Table κ ν} {b : Table ν κ}

/-- Two tables that each lead back from where the other leads. -/
def Inverse (a : Table κ ν) (b : Table ν κ) : Prop := ∀ k v, b.get? v = some k ↔ a.get? k = some v

theorem inverse_iff_perm : a.Inverse b ↔ (a.entries.map Prod.swap).Perm b.entries := by
  rw [List.perm_ext_iff_of_nodup a.nodup_map_swap b.nodup_entries, Prod.forall]
  simp only [List.mem_map_swap, ← get?_eq_some_iff]
  constructor
  · intro h v k
    exact (h k v).symm
  · intro h k v
    exact (h v k).symm

/-- If every entry leads back, and there are no more entries that lead back than there are entries,
then none of those leads astray. -/
theorem inverse_iff :
    a.Inverse b ↔ a.size = b.size ∧ ∀ e ∈ a.entries, b.get? e.2 = some e.1 := by
  rw [inverse_iff_perm]
  constructor
  · intro h
    refine ⟨?_, fun e he => ?_⟩
    · have hlength := h.length_eq
      rwa [List.length_map] at hlength
    · exact get?_eq_some_iff.2 (h.subset (List.mem_map_of_mem he))
  · rintro ⟨hsize, hback⟩
    have hsubset : a.entries.map Prod.swap ⊆ b.entries := by
      rintro ⟨v, k⟩ he
      rw [List.mem_map_swap] at he
      exact get?_eq_some_iff.1 (hback (k, v) he)
    have hlength : b.entries.length ≤ (a.entries.map Prod.swap).length := by
      rw [List.length_map]
      exact Nat.le_of_eq hsize.symm
    exact (a.nodup_map_swap.subperm hsubset).perm_of_length_le hlength

end Table

namespace AccessVector

variable {v : AccessVector} {n : String} {i : TypeId}

/-- An access vector whose type index can be followed both ways, and which speaks of indexed types
only. -/
structure Indexed (v : AccessVector) : Prop where
  version : v.version ≤ currentVersion
  inverse : ∀ n i, v.typeId? n = some i ↔ v.typeName? i = some n
  wildcard : ∀ i, i ∈ v.allow.keys ∨ i ∈ v.deny.keys → ∃ n, v.typeName? i = some n
  targeted : ∀ p, p ∈ v.allowOn.keys ∨ p ∈ v.denyOn.keys →
    (∃ n, v.typeName? p.subject = some n) ∧ ∃ n, v.typeName? p.target = some n

theorem mem_keys_names_iff : i ∈ v.names.keys ↔ ∃ n, v.typeName? i = some n := by
  rw [← Table.contains_iff_mem_keys, Table.contains, Option.isSome_iff_exists]
  rfl

theorem inverse_names_iff :
    v.names.Inverse v.ids ↔ ∀ n i, v.typeId? n = some i ↔ v.typeName? i = some n := forall_comm

theorem valid_iff_indexed : v.Valid ↔ v.Indexed := by
  constructor
  · intro h
    refine ⟨UInt32.not_lt.1 h.version, ?_, ?_, ?_⟩
    · exact inverse_names_iff.1 (Table.inverse_iff.2 ⟨h.sizes, h.index⟩)
    · rintro i (hi | hi)
      · exact mem_keys_names_iff.1 (h.allow i hi)
      · exact mem_keys_names_iff.1 (h.deny i hi)
    · rintro p (hp | hp)
      · exact (h.allowOn p hp).imp mem_keys_names_iff.1 mem_keys_names_iff.1
      · exact (h.denyOn p hp).imp mem_keys_names_iff.1 mem_keys_names_iff.1
  · intro h
    obtain ⟨hsizes, hindex⟩ := Table.inverse_iff.1 (inverse_names_iff.2 h.inverse)
    refine ⟨UInt32.not_lt.2 h.version, hsizes, hindex, ?_, ?_, ?_, ?_⟩
    · intro i hi
      exact mem_keys_names_iff.2 (h.wildcard i (.inl hi))
    · intro i hi
      exact mem_keys_names_iff.2 (h.wildcard i (.inr hi))
    · intro p hp
      exact (h.targeted p (.inl hp)).imp mem_keys_names_iff.2 mem_keys_names_iff.2
    · intro p hp
      exact (h.targeted p (.inr hp)).imp mem_keys_names_iff.2 mem_keys_names_iff.2

/-- The index of a merged access vector is that of the declarations of its modules, whether or not
these are valid otherwise. -/
theorem inverse_of_build {ms : List PolicyModule} (h : build ms = .ok v) (n : String) (i : TypeId) :
    v.typeId? n = some i ↔ v.typeName? i = some n := by
  rw [build, map_eq_ok_iff] at h
  obtain ⟨s, hs, rfl⟩ := h
  have hrecords := Merge.Records.blank.foldlM_add hs
  rw [typeId?, typeName?, hrecords.ids, hrecords.names]
  simp only [and_comm]

end AccessVector

end GuildPolicy
