import GuildPolicy.Proofs.AccessVector.ClosedForm
import GuildPolicy.Proofs.Guild.Loaded
import GuildPolicy.Proofs.Session.Rebuild

namespace GuildPolicy

namespace Manager

/-- A manager after some moves, each with the files as they then are. -/
inductive Reachable : Manager → Prop
  | make (config : Config) : Reachable (make config)
  | moves {files : Files} {m m' : Manager} {L L' : Ledger} (h : Reachable m)
    (hm : Moves files (m, L) (m', L')) : Reachable m'

theorem Reachable.valid {m : Manager} (h : m.Reachable) : m.Valid := by
  induction h with
  | make config => exact valid_make config
  | moves _ hm ih => exact hm.valid ih

end Manager

namespace Session

theorem step_reachable {s : Session} (st : Step) (h : s.manager.Reachable) :
    (s.step st).2.manager.Reachable := by
  by_cases hr : st = .restart
  · subst hr
    exact .make s.manager.config
  · exact .moves h (s.step_moves .blank hr)

theorem reachable (config : Config) (steps : List Step) :
    ((make config).after steps).manager.Reachable :=
  after_induction (P := fun s => s.manager.Reachable) (.make config)
    (fun _ st => step_reachable st) steps

end Session

namespace Manager

/-- Valid modules merge into a valid access vector. So after a merge the check finds nothing, and
what is merged again or held unchecked would pass it. -/
theorem merged_validates :
    (∀ ms v, (∀ module ∈ ms, PolicyModule.validate module = .ok ()) →
      AccessVector.build ms = .ok v → v.validate = .ok ()) ∧
    (∀ config steps, ((Session.make config).after steps).manager.Reachable) ∧
    ∀ m : Manager, m.Reachable →
      (∀ now files g, (m.compileAll now files g).1 =
        (AccessVector.build (m.resident now files g).1.modules.values).mapError .conflict) ∧
      (∀ now g state v, m.guilds.get? g = some state → (m.rebuild now g state).1 = some v →
        v.validate = .ok ()) ∧
      ∀ g p, m.held g = some p → p.vector.validate = .ok () := by
  refine ⟨fun ms v hms hv => ?_, Session.reachable, fun m hm => ⟨?_, ?_, ?_⟩⟩
  · exact v.validate_eq_ok_iff.2 (AccessVector.valid_of_build hms hv)
  · intro now files g
    rw [(m.resident_shows now files g).1]
    exact hm.valid.compileAll_fst now files g
  · intro now g state v hs hv
    exact v.validate_eq_ok_iff.2 (hm.valid.rebuild hs hv)
  · intro g p hp
    exact p.vector.validate_eq_ok_iff.2 (hm.valid.held g p hp)

def bannedMembers : List PolicyModule := [AccessVector.membersModule, AccessVector.bansModule]

def mergeBans : List Step :=
  bannedMembers.map (fun module => .admin (.load 1 (.compiled module))) ++ [.admin (.compileAll 1)]

def loseBans : List Step := mergeBans ++ [.sleep 500]

theorem merged_validates_bans :
    let s := (Session.make Session.shortLived).after mergeBans
    let lost := (Session.make Session.shortLived).after loseBans
    (∃ v, AccessVector.build bannedMembers = .ok v ∧ v.validate = .ok ()) ∧
    (∃ p, s.manager.held 1 = some p ∧ p.vector.validate = .ok ()) ∧
    lost.manager.Lost lost.clock 1 ∧
    (∃ state v, lost.manager.guilds.get? 1 = some state ∧
      (lost.manager.rebuild lost.clock 1 state).1 = some v ∧ v.validate = .ok ()) ∧
    ∃ v, (lost.manager.compileAll lost.clock lost.files 1).1 = .ok v := by
  intro s lost
  obtain ⟨hbuild, hreach, hmanager⟩ := merged_validates
  obtain ⟨-, -, hheld⟩ := hmanager _ (hreach Session.shortLived mergeBans)
  obtain ⟨hcompile, hrebuild, -⟩ := hmanager _ (hreach Session.shortLived loseBans)
  have hms : ∀ module ∈ bannedMembers, PolicyModule.validate module = .ok () := by
    decide
  obtain ⟨v, hv⟩ : ∃ v, AccessVector.build bannedMembers = .ok v := ⟨_, rfl⟩
  have hheld? : (s.manager.held 1).isSome = true := by decide +kernel
  obtain ⟨p, hp⟩ := Option.isSome_iff_exists.1 hheld?
  have hlost : ((lost.manager.guilds.get? 1).bind fun state =>
      (lost.manager.rebuild lost.clock 1 state).1).isSome = true := by decide +kernel
  obtain ⟨w, hw⟩ := Option.isSome_iff_exists.1 hlost
  obtain ⟨state, hstate, hw⟩ := Option.bind_eq_some_iff.1 hw
  have hmodules : (lost.manager.resident lost.clock lost.files 1).1.modules.values =
      bannedMembers := by decide +kernel
  refine ⟨⟨v, hv, hbuild _ v hms hv⟩, ⟨p, hp, hheld 1 p hp⟩, by decide +kernel,
    ⟨state, w, hstate, hw, hrebuild _ _ _ w hstate hw⟩, v, ?_⟩
  rw [hcompile, hmodules, hv]
  rfl

end Manager

end GuildPolicy
