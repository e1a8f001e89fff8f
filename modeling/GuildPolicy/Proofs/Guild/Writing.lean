import GuildPolicy.Proofs.AccessVector.ClosedForm
import GuildPolicy.Proofs.Files.Whole
import GuildPolicy.Proofs.Guild.Operations

namespace GuildPolicy

open Files

/-- A snapshot that is stored is there with all its bytes and nothing beside it; one that is not
leaves every file but the one beside as it was, whatever failed, and new directories only where they
were missing on the way. It is the same at every moment before the new bytes take their place. -/
theorem stored_wholly_or_not (files : Files) (path : String) :
    (∀ module, files.Replacing (storeModule files path module).1 path (encodeModule module)
      ((storeModule files path module).2 = .ok ())) ∧
    (∀ (m : Manager) now g, files.Replacing (m.store now files g path).2.2 path
      (encodeGuild (m.toStore now g).1) ((m.store now files g path).1 = .ok ())) ∧
    (∀ (m : Manager) now g,
      (m.config.snapshotPath? g = none → m.storeGuild now files g = (.ok false, m, files)) ∧
      (m.config.snapshotPath? g = some path →
        (m.storeGuild now files g).1 ≠ .ok false ∧
        files.Replacing (m.storeGuild now files g).2.2 path (encodeGuild (m.toStore now g).1)
          ((m.storeGuild now files g).1 = .ok true))) ∧
    ∀ made bytes, Reaches (·.Prepares path) files made →
      files.Replacing made path bytes False := by
  refine ⟨fun module => ?_, fun m now g => ?_, fun m now g => ⟨fun hnone => ?_, fun hpath => ?_⟩,
    fun made bytes hmade => ?_⟩
  · exact files.replacing_replace path (encodeModule module)
  · rw [Manager.store_eq]
    exact files.replacing_replace path _
  · rw [Manager.storeGuild, hnone]
  · have hreplacing := files.replacing_replace path (encodeGuild (m.toStore now g).1)
    rw [Manager.storeGuild_eq hpath]
    generalize files.replace path _ = outcome at hreplacing ⊢
    obtain ⟨made, result⟩ := outcome
    have hdone : (fun _ => true) <$> result = .ok true ↔ result = .ok () := by
      rw [map_eq_ok_iff]
      constructor
      · rintro ⟨_, h, -⟩
        exact h
      · intro h
        exact ⟨(), h, rfl⟩
    refine ⟨fun hfalse => ?_, ?_⟩
    · obtain ⟨_, -, hfalse⟩ := map_eq_ok_iff.1 hfalse
      cases hfalse
    · dsimp only
      rw [hdone]
      exact hreplacing
  · exact replacing_of_reaches bytes hmade

/-- Two snapshots. Beside one there is a directory, where its successor would be written first. -/
def blocked : Files where
  entries := .ofList [
    (["kept"], .directory),
    (["kept", "guests.pm"], .file [3]),
    (["kept", "members.pm"], .file [7]),
    (["kept", "members.pm.tmp"], .directory)]
  working := []

/-- A manager that keeps snapshots in a directory that is reached by a detour. -/
def detouring : Manager := .make { Config.default with snapshotDir := some "new/../kept" }

def detour : String := "new/../kept/00000000-0000-0000-0000-000000000001.avc"

theorem stored_wholly_or_not_blocked :
    (storeModule blocked "kept/members.pm" AccessVector.membersModule).2 =
      .error (.file "kept/members.pm.tmp" .isDirectory) ∧
    (storeModule blocked "kept/members.pm" AccessVector.membersModule).1.read "kept/members.pm" =
      .ok [7] ∧
    (∃ made, blocked.write "kept/guests.pm.tmp" [9] = .ok made ∧
      made.read "kept/guests.pm" = .ok [3]) ∧
    (Manager.make .default).storeGuild 0 blocked 1 = (.ok false, .make .default, blocked) ∧
    detouring.config.snapshotPath? 1 = some detour ∧
    (detouring.storeGuild 0 blocked 1).1 = .ok true ∧
    (detouring.storeGuild 0 blocked 1).2.2.read detour = .ok (encodeGuild .blank) ∧
    (detouring.storeGuild 0 blocked 1).2.2.find (detour ++ ".tmp") = .error .notFound ∧
    (detouring.storeGuild 0 blocked 1).2.2.read "kept/members.pm" = .ok [7] := by
  obtain ⟨hmodule, -⟩ := stored_wholly_or_not blocked "kept/members.pm"
  obtain ⟨-, -, -, hmoment⟩ := stored_wholly_or_not blocked "kept/guests.pm"
  obtain ⟨-, -, hguild, -⟩ := stored_wholly_or_not blocked detour
  have hfailed : (storeModule blocked "kept/members.pm" AccessVector.membersModule).2 =
      .error (.file "kept/members.pm.tmp" .isDirectory) := by decide +kernel
  have hmembers : blocked.read "kept/members.pm" = .ok [7] := by decide +kernel
  have hguests : blocked.read "kept/guests.pm" = .ok [3] := by decide +kernel
  have hpath : detouring.config.snapshotPath? 1 = some detour := by decide +kernel
  have hstored : (detouring.storeGuild 0 blocked 1).1 = .ok true := by decide +kernel
  have hnot : (storeModule blocked "kept/members.pm" AccessVector.membersModule).2 ≠ .ok () := by
    rw [hfailed]
    simp
  obtain ⟨made, hmade⟩ : ∃ made, blocked.write "kept/guests.pm.tmp" [9] = .ok made := by
    cases hwrite : blocked.write "kept/guests.pm.tmp" [9] with
    | ok made => exact ⟨made, rfl⟩
    | error f =>
      have hok : (blocked.write "kept/guests.pm.tmp" [9]).isOk = true := by decide +kernel
      rw [hwrite] at hok
      cases hok
  have hprepares : Operation.Prepares "kept/guests.pm" (.write "kept/guests.pm.tmp" [9]) := rfl
  have hreaches : Reaches (·.Prepares "kept/guests.pm") blocked made :=
    (Reaches.refl _ blocked).concat hprepares hmade
  have hblank : (detouring.toStore 0 1).1 = .blank := rfl
  have hreplacing := ((hguild detouring 0 1).2 hpath).2
  obtain ⟨hread, hbeside⟩ := hreplacing.whole hstored
  rw [hblank] at hread
  refine ⟨hfailed, (hmodule _).kept hnot [7] hmembers,
    ⟨made, hmade, (hmoment made [9] hreaches).kept id [3] hguests⟩,
    (hguild (.make .default) 0 1).1 rfl, hpath, hstored, hread, hbeside, ?_⟩
  apply hreplacing.others _ _ hmembers
  rintro p ⟨-, rfl⟩ (⟨-, -, hplace⟩ | ⟨-, hplace⟩)
  · exact absurd hplace (by decide +kernel)
  · exact absurd hplace (by decide +kernel)

end GuildPolicy
