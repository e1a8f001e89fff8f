import GuildPolicy.Build.Report
import GuildPolicy.Proofs.Guild.Validity

namespace GuildPolicy

open GuildPolicy.Path

/-- A path and the bytes that are to be there. -/
structure Write where
  path : String
  bytes : List UInt8
  deriving DecidableEq

namespace Files

variable {fs : Files} {w : Write} {ws ws' : List Write}

/-- The files after some were written one after the other, as far as they could be. -/
def writeAll (fs : Files) (ws : List Write) : Files :=
  ws.foldl (fun fs w => (fs.replace w.path w.bytes).1) fs

/-- Each file can be written when its turn comes, and is no longer than eight bytes can say. -/
def Writable (fs : Files) : List Write → Prop
  | [] => True
  | w :: ws => (fs.replace w.path w.bytes).2 = .ok () ∧ w.bytes.length < UInt64.size ∧
    Writable (fs.replace w.path w.bytes).1 ws

instance decidableWritable (fs : Files) : (ws : List Write) → Decidable (fs.Writable ws)
  | [] => inferInstanceAs (Decidable True)
  | w :: ws =>
    have := decidableWritable (fs.replace w.path w.bytes).1 ws
    inferInstanceAs (Decidable (_ ∧ _ ∧ Writable (fs.replace w.path w.bytes).1 ws))

theorem writeAll_append : fs.writeAll (ws ++ ws') = (fs.writeAll ws).writeAll ws' :=
  List.foldl_append

theorem writable_append_iff :
    fs.Writable (ws ++ ws') ↔ fs.Writable ws ∧ (fs.writeAll ws).Writable ws' := by
  induction ws generalizing fs with
  | nil => exact iff_of_eq (true_and _).symm
  | cons w ws ih =>
    rw [List.cons_append, Writable, Writable, ih, and_assoc, and_assoc]
    rfl

end Files

namespace Build

section Trace

variable (c : BuildConfig) (guild : Uuid)

def sourceWrites (files : Files) (source : String) : List Write :=
  match compileFile .platform files source with
  | .error _ => []
  | .ok module =>
    match snapshotFileName module.name with
    | .error _ => []
    | .ok name => [⟨join (c.moduleDir guild) name, encodeModule module⟩]

def sourcesWrites (m : Manager) (files : Files) (times : Nat → Nat) : List String → List Write
  | [] => []
  | source :: rest =>
    sourceWrites c guild files source ++
      match addSource c guild m files (times 0) source with
      | (.error _, _, _) => []
      | (.ok (), m, files) => sourcesWrites m files (fun k => times (k + 1)) rest

def storeWrites (m : Manager) (now : Nat) : List Write :=
  match m.config.snapshotPath? guild with
  | none => []
  | some path => [⟨path, encodeGuild (m.toStore now guild).1⟩]

def finishWrites (m : Manager) (files : Files) (times : Nat → Nat) : List Write :=
  match m.compileAll (times 0) files guild with
  | (.error _, _) => []
  | (.ok _, m) => storeWrites guild m (times 1)

def guildWrites (m : Manager) (files : Files) (dir : String) (times : Nat → Nat) : List Write :=
  match policySources files dir with
  | .error _ => []
  | .ok sources =>
    sourcesWrites c guild (m.reset (times 0) guild) files (fun k => times (k + 1)) sources ++
      match addSources c guild (m.reset (times 0) guild) files (fun k => times (k + 1)) sources with
      | (.error _, _, _) => []
      | (.ok (), m, files) => finishWrites guild m files fun k => times (k + 1 + sources.length)

def guildsWrites (m : Manager) (files : Files) (clock : Nat → Nat → Nat) :
    List (Uuid × String) → List Write
  | [] => []
  | (guild, dir) :: rest =>
    guildWrites c guild m files dir (clock 0) ++
      match buildGuild c m files guild dir (clock 0) with
      | (_, m, files) => guildsWrites (m.evict guild) files (fun i => clock (i + 1)) rest

/-- All that a build writes, in order. -/
def writes (files : Files) (clock : Nat → Nat → Nat) : List Write :=
  match guildDirs files c.sourceDir with
  | .error _ => []
  | .ok guilds => guildsWrites c (.make c.policy) files clock guilds

end Trace

section Files

variable {c : BuildConfig} {guild : Uuid} {m : Manager} {files : Files} {dir : String}
variable {now : Nat} {times : Nat → Nat}

theorem files_addSource (source : String) : (addSource c guild m files now source).2.2 =
    files.writeAll (sourceWrites c guild files source) := by
  rw [addSource, sourceWrites]
  cases compileFile .platform files source with
  | error e => rfl
  | ok module =>
    dsimp only
    cases snapshotFileName module.name with
    | error e => rfl
    | ok name =>
      change _ = (storeModule files (join (c.moduleDir guild) name) module).1
      dsimp only
      cases storeModule files (join (c.moduleDir guild) name) module with
      | mk files result =>
        cases result with
        | error e => rfl
        | ok => rfl

theorem files_addSources (sources : List String) :
    (addSources c guild m files times sources).2.2 =
      files.writeAll (sourcesWrites c guild m files times sources) := by
  induction sources generalizing m files times with
  | nil => rfl
  | cons source rest ih =>
    have hsource : (addSource c guild m files (times 0) source).2.2 = _ := files_addSource source
    rw [addSources, sourcesWrites, Files.writeAll_append, ← hsource]
    cases addSource c guild m files (times 0) source with
    | mk result made =>
      cases result with
      | error e => rfl
      | ok => exact ih

theorem files_storeGuild : (m.storeGuild now files guild).2.2 =
    files.writeAll (storeWrites guild m now) := by
  rw [Manager.storeGuild, storeWrites]
  cases m.config.snapshotPath? guild with
  | none => rfl
  | some path =>
    dsimp only
    rw [Manager.store_eq]
    rfl

theorem files_finishGuild : (finishGuild guild m files times).2.2 =
    files.writeAll (finishWrites guild m files times) := by
  rw [finishGuild, finishWrites]
  cases m.compileAll (times 0) files guild with
  | mk result m =>
    cases result with
    | error e => rfl
    | ok v =>
      dsimp only
      rw [← files_storeGuild]
      cases m.storeGuild (times 1) files guild with
      | mk result made =>
        cases result with
        | error e => rfl
        | ok kept => rfl

theorem files_buildGuild : (buildGuild c m files guild dir times).2.2 =
    files.writeAll (guildWrites c guild m files dir times) := by
  rw [buildGuild, guildWrites]
  cases policySources files dir with
  | error e => rfl
  | ok sources =>
    dsimp only
    have hsources : (addSources c guild (m.reset (times 0) guild) files (fun k => times (k + 1))
      sources).2.2 = _ := files_addSources sources
    rw [Files.writeAll_append, ← hsources]
    cases addSources c guild (m.reset (times 0) guild) files (fun k => times (k + 1)) sources with
    | mk result made =>
      cases result with
      | error e => rfl
      | ok => exact files_finishGuild

theorem files_buildGuilds {clock : Nat → Nat → Nat} (guilds : List (Uuid × String))
    (report : BuildReport) : (buildGuilds c m files report clock guilds).2 =
      files.writeAll (guildsWrites c m files clock guilds) := by
  induction guilds generalizing m files report clock with
  | nil => rfl
  | cons guild guilds ih =>
    obtain ⟨guild, dir⟩ := guild
    have hguild : (buildGuild c m files guild dir (clock 0)).2.2 = _ := files_buildGuild
    rw [buildGuilds, guildsWrites, Files.writeAll_append, ← hguild]
    cases buildGuild c m files guild dir (clock 0) with
    | mk result made =>
      cases result with
      | error e => exact ih _
      | ok summary => exact ih _

end Files

/-- A manager that keeps snapshots where a build does and holds nothing invalid. -/
structure Fits (c : BuildConfig) (m : Manager) : Prop where
  config : m.config = c.policy
  valid : m.Valid

namespace Fits

variable {c : BuildConfig} {guild : Uuid} {m m' : Manager} {files : Files} {dir : String}
variable {now : Nat} {times : Nat → Nat}

theorem make (c : BuildConfig) : Fits c (.make c.policy) := ⟨rfl, Manager.valid_make _⟩

theorem moves {L L' : Ledger} (h : Fits c m) (hm : MovesOf files guild (m, L) (m', L')) :
    Fits c m' :=
  ⟨hm.moves.config.trans h.config, hm.moves.valid h.valid⟩

theorem reset (h : Fits c m) (now : Nat) (guild : Uuid) : Fits c (m.reset now guild) := by
  have hm : Move .empty guild (m, .blank) (m.reset now guild, _) := .reset m .blank now
  exact h.moves (.single hm)

theorem evict (h : Fits c m) (guild : Uuid) : Fits c (m.evict guild) := by
  have hm : Move .empty guild (m, .blank) (m.evict guild, _) := .evict m .blank
  exact h.moves (.single hm)

theorem addSource (h : Fits c m) (source : String) :
    Fits c (addSource c guild m files now source).2.1 := by
  rw [Build.addSource]
  cases compileFile .platform files source with
  | error e => exact h
  | ok module =>
    dsimp only
    cases snapshotFileName module.name with
    | error e => exact h
    | ok name =>
      dsimp only
      cases storeModule files (join (c.moduleDir guild) name) module with
      | mk files result =>
        cases result with
        | error e => exact h
        | ok => exact h.moves (m.loadFile_moves .blank now files guild _)

theorem addSources (h : Fits c m) (sources : List String) :
    Fits c (addSources c guild m files times sources).2.1 := by
  induction sources generalizing m files times with
  | nil => exact h
  | cons source rest ih =>
    have hsource : Fits c (Build.addSource c guild m files (times 0) source).2.1 :=
      h.addSource source
    rw [Build.addSources]
    cases hadd : Build.addSource c guild m files (times 0) source with
    | mk result made =>
      rw [hadd] at hsource
      cases result with
      | error e => exact hsource
      | ok => exact ih hsource

theorem finishGuild (h : Fits c m) : Fits c (finishGuild guild m files times).2.1 := by
  have hcompiled := h.moves (m.compileAll_moves .blank (times 0) files guild)
  rw [Build.finishGuild]
  cases hcompile : m.compileAll (times 0) files guild with
  | mk result m =>
    rw [hcompile] at hcompiled
    cases result with
    | error e => exact hcompiled
    | ok v =>
      dsimp only
      have hstored := hcompiled.moves (m.storeGuild_moves .blank (times 1) files guild)
      cases hstore : m.storeGuild (times 1) files guild with
      | mk result made =>
        rw [hstore] at hstored
        cases result with
        | error e => exact hstored
        | ok kept => exact hstored.moves (made.1.modulesOf_moves .blank (times 2) made.2 guild)

theorem buildGuild (h : Fits c m) : Fits c (buildGuild c m files guild dir times).2.1 := by
  have hreset := h.reset (times 0) guild
  rw [Build.buildGuild]
  cases policySources files dir with
  | error e => exact hreset
  | ok sources =>
    dsimp only
    have hsources : Fits c (Build.addSources c guild (m.reset (times 0) guild) files
        (fun k => times (k + 1)) sources).2.1 := hreset.addSources sources
    cases hadd : Build.addSources c guild (m.reset (times 0) guild) files
        (fun k => times (k + 1)) sources with
    | mk result made =>
      rw [hadd] at hsources
      cases result with
      | error e => exact hsources
      | ok => exact hsources.finishGuild

end Fits

end Build

end GuildPolicy
