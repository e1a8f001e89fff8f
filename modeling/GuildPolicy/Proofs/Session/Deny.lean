import GuildPolicy.Proofs.AccessVector.ClosedForm
import GuildPolicy.Proofs.Session.Run

namespace GuildPolicy

/-- Whether what is in force allows nothing that it denies on any target: always if it was merged. -/
def InForce.Masked : InForce → Prop
  | merged _ => True
  | installed s => ∀ x, (s.vector.allowed x).inter (s.vector.denied x) = .empty

theorem ModuleSet.build_allowed_inter_denied {ms : ModuleSet} {v : AccessVector}
    (h : ms.build = .ok v) (x : TypeId) : (v.allowed x).inter (v.denied x) = .empty := by
  rw [build] at h
  split at h
  · next hb =>
    cases h
    exact AccessVector.build_allowed_inter_denied hb x
  · cases h

namespace AccessVector

variable (v : AccessVector) (pair : TypePair)

theorem allowedOn_inter_deniedOn : (v.allowedOn pair).inter (v.deniedOn pair) = .empty := by
  refine Mask.minus_inter fun i hi => ?_
  rw [Mask.getLsbD_union, hi, Bool.true_or]

theorem allowedOn_inter_denied : (v.allowedOn pair).inter (v.denied pair.subject) = .empty := by
  refine Mask.minus_inter fun i hi => ?_
  rw [Mask.getLsbD_union, hi, Bool.or_true]

end AccessVector

namespace Manager

variable {m : Manager} {now : Nat} {detached : Bool} {g : Uuid} {p : Published}

theorem permissionsOf_of_current (hp : (m.current now detached g).1 = some p) {a : TypeRef}
    {x : TypeId} (ha : a.resolve? p.vector = some x) :
    (m.permissionsOf now detached g a).1 = p.vector.allowed x := by
  rw [permissionsOf_eq, hp, Option.elim, TypeRef.allowed, ha]

theorem permissionsOn_of_current (hp : (m.current now detached g).1 = some p) {a b : TypeRef}
    {x y : TypeId} (ha : a.resolve? p.vector = some x) (hb : b.resolve? p.vector = some y) :
    (m.permissionsOn now detached g a b).1 = p.vector.allowedOn ⟨x, y⟩ := by
  rw [permissionsOn, pairOf_eq, hp, Option.elim, TypeRef.onPair, ha, hb]

end Manager

namespace Session

variable {config : Config} {steps : List Step} {g : Uuid} {detached : Bool} {p : Published}

/-- Nothing that is denied is answered on a target. Without a target, nothing that is denied is
answered exactly if what is current was merged or comes from a snapshot that allows nothing that it
denies. -/
theorem deny_wins_iff_masked
    (hp : (((make config).after steps).manager.current ((make config).after steps).clock
      detached g).1 = some p) :
    let s := (make config).after steps
    ∃ f, (make config).inForce .blank steps g = some f ∧
      (∀ a b x y, a.resolve? p.vector = some x → b.resolve? p.vector = some y →
        let bits := (s.manager.permissionsOn s.clock detached g a b).1
        bits.inter (p.vector.deniedOn ⟨x, y⟩) = .empty ∧
          bits.inter (p.vector.denied x) = .empty) ∧
      ((∀ a x, a.resolve? p.vector = some x →
        (s.manager.permissionsOf s.clock detached g a).1.inter (p.vector.denied x) = .empty) ↔
          (p.vector = f.vector → f.Masked)) := by
  intro s
  obtain ⟨f, hf, hfrom⟩ := (accounts config steps).held (Manager.held_of_current hp)
  refine ⟨f, hf, ?_, ?_, ?_⟩
  · intro a b x y ha hb
    dsimp only
    rw [Manager.permissionsOn_of_current hp ha hb]
    exact ⟨p.vector.allowedOn_inter_deniedOn ⟨x, y⟩, p.vector.allowedOn_inter_denied ⟨x, y⟩⟩
  · intro hall he
    cases f with
    | merged v => trivial
    | installed snap =>
      intro x
      have hx := hall (.id x) x rfl
      rw [Manager.permissionsOf_of_current hp (a := .id x) rfl] at hx
      have he' : p.vector = snap.vector := he
      rw [← he']
      exact hx
  · intro hmasked a x ha
    rw [Manager.permissionsOf_of_current hp ha]
    rcases hfrom with ⟨ms, hb⟩ | ⟨snap, rfl, he⟩
    · exact ModuleSet.build_allowed_inter_denied hb x
    · exact he ▸ hmasked he x

/-- Members may do 2 and, if it were not denied, 1. -/
def mergeGuarded : List Step :=
  [.admin (.load 1 (.compiled ⟨"guarded", none, 1, ["member"], [3], [1], .empty, .empty⟩)),
    .admin (.compileAll 1)]

theorem deny_wins_guarded :
    let s := (make .default).after mergeGuarded
    ∃ p, (s.manager.current s.clock false 1).1 = some p ∧ p.vector.denied 0 = 1 ∧
      (s.manager.permissionsOf s.clock false 1 (.name "member")).1.inter 1 = .empty := by
  intro s
  obtain ⟨p, hp⟩ : ∃ p, (s.manager.current s.clock false 1).1 = some p := ⟨_, rfl⟩
  obtain ⟨f, hf, _, hmasked⟩ := deny_wins_iff_masked hp
  obtain ⟨v, hv⟩ : ∃ v, (make .default).inForce .blank mergeGuarded 1 = some (.merged v) :=
    ⟨_, rfl⟩
  have hd : (s.manager.current s.clock false 1).1.map (·.vector.denied 0) = some 1 := by
    decide +kernel
  have ha : (s.manager.current s.clock false 1).1.map (·.vector.typeId? "member") =
      some (some 0) := by
    decide +kernel
  rw [hp] at hd ha
  rw [hv] at hf
  cases hf
  have hd' : p.vector.denied 0 = 1 := Option.some.inj hd
  have hwins := hmasked.2 (fun _ => trivial) (.name "member") 0 (Option.some.inj ha)
  rw [hd'] at hwins
  exact ⟨p, hp, hd', hwins⟩

/-- A snapshot that allows members what it denies them. -/
def overlapping : GuildSnapshot where
  vector := ⟨1, .ofList [(0, "member")], .ofList [("member", 0)], .ofList [(0, 1)],
    .ofList [(0, 1)], .empty, .empty⟩
  modules := .empty

def installOverlapping : List Step :=
  [.file (.write "guild.avc" (encodeGuild overlapping)), .admin (.loadVector 1 "guild.avc")]

/-- The snapshot is accepted, and members are answered what they are denied. -/
theorem denied_yet_answered :
    let s := (make .default).after installOverlapping
    ∃ p, (s.manager.current s.clock false 1).1 = some p ∧
      (s.manager.permissionsOf s.clock false 1 (.name "member")).1.inter (p.vector.denied 0) = 1 := by
  intro s
  obtain ⟨p, hp⟩ : ∃ p, (s.manager.current s.clock false 1).1 = some p := ⟨_, rfl⟩
  have hd : (s.manager.current s.clock false 1).1.map (·.vector.denied 0) = some 1 := by
    decide +kernel
  have hbits : (s.manager.permissionsOf s.clock false 1 (.name "member")).1 = 1 := by
    decide +kernel
  rw [hp] at hd
  have hd' : p.vector.denied 0 = 1 := Option.some.inj hd
  refine ⟨p, hp, ?_⟩
  rw [hbits, hd']
  rfl

end Session

end GuildPolicy
