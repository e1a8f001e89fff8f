import GuildPolicy.Guild.Manager

namespace GuildPolicy

def Table.Agree {κ ν : Type} [DecidableEq κ] (a b : Table κ ν) : Prop := ∀ k, a.get? k = b.get? k

/-- Two access vectors with the same tables up to order. -/
structure AccessVector.Agree (v w : AccessVector) : Prop where
  version : v.version = w.version
  names : v.names.Agree w.names
  ids : v.ids.Agree w.ids
  allow : v.allow.Agree w.allow
  deny : v.deny.Agree w.deny
  allowOn : v.allowOn.Agree w.allowOn
  denyOn : v.denyOn.Agree w.denyOn

namespace AccessVector.Agree

variable {v w u : AccessVector}

theorem refl (v : AccessVector) : v.Agree v :=
  ⟨rfl, fun _ => rfl, fun _ => rfl, fun _ => rfl, fun _ => rfl, fun _ => rfl, fun _ => rfl⟩

theorem symm (h : v.Agree w) : w.Agree v :=
  ⟨h.version.symm, fun k => (h.names k).symm, fun k => (h.ids k).symm, fun k => (h.allow k).symm,
    fun k => (h.deny k).symm, fun k => (h.allowOn k).symm, fun k => (h.denyOn k).symm⟩

theorem trans (h : v.Agree w) (h' : w.Agree u) : v.Agree u where
  version := h.version.trans h'.version
  names k := (h.names k).trans (h'.names k)
  ids k := (h.ids k).trans (h'.ids k)
  allow k := (h.allow k).trans (h'.allow k)
  deny k := (h.deny k).trans (h'.deny k)
  allowOn k := (h.allowOn k).trans (h'.allowOn k)
  denyOn k := (h.denyOn k).trans (h'.denyOn k)

theorem allowed (h : v.Agree w) (s : TypeId) : v.allowed s = w.allowed s := by
  rw [AccessVector.allowed, AccessVector.allowed, h.allow s]

end AccessVector.Agree

end GuildPolicy
