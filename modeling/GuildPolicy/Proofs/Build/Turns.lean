import GuildPolicy.Proofs.Build.Turn

namespace GuildPolicy.Build

open GuildPolicy.Path Files

variable {c : BuildConfig} {guild other : Uuid} {m : Manager} {files files' : Files}
variable {dir path : String} {guilds : List (Uuid × String)} {e : PolicyError}
variable {now : Nat} {times : Nat → Nat} {clock : Nat → Nat → Nat} {report : BuildReport}
variable {ws : List Write}

/-- What came of a guild's turn. -/
abbrev Result := Uuid × Except PolicyError GuildSummary

def summaries (results : List Result) : List GuildSummary :=
  results.filterMap fun r => r.2.toOption

def failures (results : List Result) : List (Uuid × PolicyError) :=
  results.filterMap fun r =>
    match r.2 with
    | .ok _ => none
    | .error e => some (r.1, e)

/-- The results of all turns, in order. -/
def turns (c : BuildConfig) (m : Manager) (files : Files) (clock : Nat → Nat → Nat) :
    List (Uuid × String) → List Result
  | [] => []
  | (guild, dir) :: rest =>
    let built := buildGuild c m files guild dir (clock 0)
    (guild, built.1) :: turns c (built.2.1.evict guild) built.2.2 (fun i => clock (i + 1)) rest

/-- A result is of the guild that it is listed under. -/
def Result.Named (r : Result) : Prop := ∀ s, r.2 = .ok s → s.guild = r.1

section Results

variable {results : List Result}

theorem summaries_cons_ok (guild : Uuid) (s : GuildSummary) (results : List Result) :
    summaries ((guild, .ok s) :: results) = s :: summaries results := rfl

theorem summaries_cons_error (guild : Uuid) (e : PolicyError) (results : List Result) :
    summaries ((guild, .error e) :: results) = summaries results := rfl

theorem failures_cons_ok (guild : Uuid) (s : GuildSummary) (results : List Result) :
    failures ((guild, .ok s) :: results) = failures results := rfl

theorem failures_cons_error (guild : Uuid) (e : PolicyError) (results : List Result) :
    failures ((guild, .error e) :: results) = (guild, e) :: failures results := rfl

theorem sublist_summaries (h : ∀ r ∈ results, r.Named) :
    ((summaries results).map GuildSummary.guild).Sublist (results.map Prod.fst) := by
  induction results with
  | nil => exact .slnil
  | cons r results ih =>
    obtain ⟨guild, result⟩ := r
    obtain ⟨hr, hrest⟩ := List.forall_mem_cons.1 h
    cases result with
    | ok s =>
      rw [summaries_cons_ok, List.map_cons, List.map_cons, hr s rfl]
      exact (ih hrest).cons_cons guild
    | error e => exact (ih hrest).cons guild

theorem sublist_failures (results : List Result) :
    ((failures results).map Prod.fst).Sublist (results.map Prod.fst) := by
  induction results with
  | nil => exact .slnil
  | cons r results ih =>
    obtain ⟨guild, result⟩ := r
    cases result with
    | ok s => exact ih.cons guild
    | error e => exact ih.cons_cons guild

theorem mem_failures : (guild, e) ∈ failures results ↔ (guild, .error e) ∈ results := by
  rw [failures, List.mem_filterMap]
  constructor
  · rintro ⟨⟨other, result⟩, hmem, hfail⟩
    cases result with
    | ok s => cases hfail
    | error e =>
      cases hfail
      exact hmem
  · exact fun hmem => ⟨_, hmem, rfl⟩

theorem mem_summaries {s : GuildSummary} (h : (guild, .ok s) ∈ results) : s ∈ summaries results :=
  List.mem_filterMap.2 ⟨_, h, rfl⟩

theorem turn_of_summary {s : GuildSummary} {earlier later : List GuildSummary}
    (h : ∀ r ∈ results, r.Named) (hs : summaries results = earlier ++ s :: later) :
    ∃ before after, results = before ++ (s.guild, .ok s) :: after ∧ summaries after = later := by
  obtain ⟨before, rest, rfl, -, hrest⟩ := List.filterMap_eq_append_iff.1 hs
  obtain ⟨skipped, ⟨guild, result⟩, after, rfl, -, hresult, hlater⟩ :=
    List.filterMap_eq_cons_iff.1 hrest
  obtain rfl : result = .ok s := toOption_eq_some_iff.1 hresult
  have hmem := List.mem_append_right before (List.mem_append_right skipped
    (List.mem_cons_self (a := (guild, .ok s)) (l := after)))
  rw [h _ hmem s rfl, ← List.append_assoc]
  exact ⟨before ++ skipped, after, rfl, hlater⟩

/-- Each turn is reported once. -/
theorem perm_results (h : ∀ r ∈ results, r.Named) :
    ((summaries results).map GuildSummary.guild ++ (failures results).map Prod.fst).Perm
      (results.map Prod.fst) := by
  induction results with
  | nil => exact .nil
  | cons r results ih =>
    obtain ⟨guild, result⟩ := r
    obtain ⟨hr, hrest⟩ := List.forall_mem_cons.1 h
    cases result with
    | ok s =>
      rw [summaries_cons_ok, failures_cons_ok, List.map_cons, List.map_cons, List.cons_append,
        hr s rfl]
      exact (ih hrest).cons guild
    | error e =>
      rw [summaries_cons_error, failures_cons_error, List.map_cons, List.map_cons]
      exact List.perm_middle.trans ((ih hrest).cons guild)

theorem mem_failures_iff_notMem_summaries (h : ∀ r ∈ results, r.Named)
    (hdistinct : (results.map Prod.fst).Nodup) (hguild : guild ∈ results.map Prod.fst) :
    guild ∈ (failures results).map Prod.fst ↔ guild ∉ (summaries results).map GuildSummary.guild := by
  have hperm := perm_results h
  have hone := List.nodup_append.1 (hperm.nodup_iff.2 hdistinct)
  rw [← hperm.mem_iff, List.mem_append] at hguild
  constructor
  · exact fun hfailed hbuilt => hone.2.2 guild hbuilt guild hfailed rfl
  · exact hguild.resolve_left

theorem filter_summaries (h : ∀ r ∈ results, r.Named) (guild : Uuid) :
    (summaries results).filter (·.guild = guild) = summaries (results.filter (·.1 = guild)) := by
  rw [summaries, summaries, List.filter_filterMap, List.filterMap_filter]
  refine List.filterMap_congr fun r hr => ?_
  obtain ⟨other, result⟩ := r
  cases result with
  | ok s =>
    obtain rfl : s.guild = other := h _ hr s rfl
    rfl
  | error e => exact (ite_self none).symm

theorem filter_failures (results : List Result) (guild : Uuid) :
    (failures results).filter (·.1 = guild) = failures (results.filter (·.1 = guild)) := by
  rw [failures, failures, List.filter_filterMap, List.filterMap_filter]
  refine List.filterMap_congr fun r hr => ?_
  obtain ⟨other, result⟩ := r
  cases result with
  | ok s => exact (ite_self none).symm
  | error e => rfl

end Results

theorem guild_of_finishGuild {s : GuildSummary}
    (h : (finishGuild guild m files times).1 = .ok s) : s.guild = guild := by
  rw [finishGuild] at h
  split at h
  · cases h
  · split at h
    · cases h
    · cases h
      rfl

theorem guild_of_buildGuild {s : GuildSummary}
    (h : (buildGuild c m files guild dir times).1 = .ok s) : s.guild = guild := by
  rw [buildGuild] at h
  split at h
  · cases h
  · split at h
    · cases h
    · exact guild_of_finishGuild h

theorem map_fst_turns (guilds : List (Uuid × String)) :
    (turns c m files clock guilds).map Prod.fst = guilds.map Prod.fst := by
  induction guilds generalizing m files clock with
  | nil => rfl
  | cons guild guilds ih =>
    rw [turns, List.map_cons, List.map_cons, ih]

theorem named_of_mem_turns {r : Result} (h : r ∈ turns c m files clock guilds) : r.Named := by
  induction guilds generalizing m files clock with
  | nil => cases h
  | cons guild guilds ih =>
    rw [turns] at h
    rcases List.mem_cons.1 h with rfl | h
    · exact fun s => guild_of_buildGuild
    · exact ih h

theorem writeAll_guildsWrites_cons : files.writeAll
    (guildsWrites c m files clock ((guild, dir) :: guilds)) =
      (buildGuild c m files guild dir (clock 0)).2.2.writeAll
        (guildsWrites c ((buildGuild c m files guild dir (clock 0)).2.1.evict guild)
          (buildGuild c m files guild dir (clock 0)).2.2 (fun i => clock (i + 1)) guilds) := by
  rw [guildsWrites, writeAll_append, ← files_buildGuild]

theorem buildGuilds_cons_ok {s : GuildSummary} {m' : Manager}
    (h : buildGuild c m files guild dir (clock 0) = (.ok s, m', files')) :
    buildGuilds c m files report clock ((guild, dir) :: guilds) =
      buildGuilds c (m'.evict guild) files' { report with built := report.built ++ [s] }
        (fun i => clock (i + 1)) guilds := by
  rw [buildGuilds, h]

theorem buildGuilds_cons_error {m' : Manager}
    (h : buildGuild c m files guild dir (clock 0) = (.error e, m', files')) :
    buildGuilds c m files report clock ((guild, dir) :: guilds) =
      buildGuilds c (m'.evict guild) files' { report with failed := report.failed ++ [(guild, e)] }
        (fun i => clock (i + 1)) guilds := by
  rw [buildGuilds, h]

/-- A build reports the results of its turns. -/
theorem report_buildGuilds (guilds : List (Uuid × String)) :
    (buildGuilds c m files report clock guilds).1 =
      ⟨report.built ++ summaries (turns c m files clock guilds),
        report.failed ++ failures (turns c m files clock guilds)⟩ := by
  induction guilds generalizing m files report clock with
  | nil => rw [turns, summaries, failures, List.filterMap_nil, List.filterMap_nil, List.append_nil,
      List.append_nil, buildGuilds]
  | cons guild guilds ih =>
    obtain ⟨guild, dir⟩ := guild
    rw [turns]
    cases hturn : buildGuild c m files guild dir (clock 0) with
    | mk result made =>
      cases result with
      | ok s =>
        rw [buildGuilds_cons_ok hturn, ih, summaries_cons_ok, failures_cons_ok, List.append_assoc,
          List.singleton_append]
      | error e =>
        rw [buildGuilds_cons_error hturn, ih, summaries_cons_error, failures_cons_error,
          List.append_assoc, List.singleton_append]

theorem buildAll_of_guildDirs (hguilds : guildDirs files c.sourceDir = .ok guilds) :
    buildAll c files clock =
      (.ok (buildGuilds c (.make c.policy) files .blank clock guilds).1,
        (buildGuilds c (.make c.policy) files .blank clock guilds).2) := by
  rw [buildAll, hguilds]

theorem buildAll_eq (hguilds : guildDirs files c.sourceDir = .ok guilds) :
    buildAll c files clock =
      (.ok ⟨summaries (turns c (.make c.policy) files clock guilds),
          failures (turns c (.make c.policy) files clock guilds)⟩,
        files.writeAll (guildsWrites c (.make c.policy) files clock guilds)) := by
  rw [buildAll_of_guildDirs hguilds, report_buildGuilds, files_buildGuilds]
  rfl

theorem buildGuild_of_nil (hm : Fits c m) (hcache : c.policy.snapshotDir = some c.cacheDir)
    (hsources : policySources files dir = .ok []) : ∃ m', Fits c m' ∧
      buildGuild c m files guild dir times =
        ((finished c guild .empty files).1, m', (finished c guild .empty files).2) := by
  have hfits : Fits c (buildGuild c m files guild dir times).2.1 := hm.buildGuild
  obtain ⟨m', hbuild⟩ : ∃ m', buildGuild c m files guild dir times =
      ((finished c guild .empty files).1, m', (finished c guild .empty files).2) := by
    rw [buildGuild, hsources]
    exact (hm.loaded_reset (times 0) guild).finishGuild_eq hcache
  rw [hbuild] at hfits
  exact ⟨m', hfits, hbuild⟩

theorem guildWrites_of_nil (hm : Fits c m) (hcache : c.policy.snapshotDir = some c.cacheDir)
    (hsources : policySources files dir = .ok []) : guildWrites c guild m files dir times =
      [⟨join c.cacheDir (guild.text ++ ".avc"), encodeGuild .blank⟩] := by
  have hmerged : ModuleSet.build .empty = .ok .empty := rfl
  rw [guildWrites, hsources]
  dsimp only
  rw [sourcesWrites, addSources, List.nil_append]
  exact (hm.loaded_reset (times 0) guild).finishWrites_eq hcache hmerged

theorem turns_cons_of_nil (hm : Fits c m) (hcache : c.policy.snapshotDir = some c.cacheDir)
    (hsources : policySources files dir = .ok []) : ∃ m', Fits c m' ∧
      turns c m files clock ((guild, dir) :: guilds) =
        (guild, (finished c guild .empty files).1) ::
          turns c m' (finished c guild .empty files).2 (fun i => clock (i + 1)) guilds := by
  obtain ⟨m', hfits, hbuild⟩ :
      ∃ m', Fits c m' ∧ buildGuild c m files guild dir (clock 0) = _ :=
    buildGuild_of_nil hm hcache hsources
  refine ⟨_, hfits.evict guild, ?_⟩
  rw [turns, hbuild]

theorem turns_cons_of_error {source : String} {sources : List String} (hm : Fits c m)
    (hsources : policySources files dir = .ok (source :: sources))
    (hcompile : compileFile .platform files source = .error e) : ∃ m', Fits c m' ∧
      turns c m files clock ((guild, dir) :: guilds) =
        (guild, .error e) :: turns c m' files (fun i => clock (i + 1)) guilds := by
  have hbuild : buildGuild c m files guild dir (clock 0) =
      (.error e, m.reset (clock 0 0) guild, files) := by
    rw [buildGuild, hsources]
    dsimp only
    rw [addSources, addSource, hcompile]
  refine ⟨_, (hm.reset (clock 0 0) guild).evict guild, ?_⟩
  rw [turns, hbuild]

theorem guildWrites_of_error {source : String} {sources : List String}
    (hsources : policySources files dir = .ok (source :: sources))
    (hcompile : compileFile .platform files source = .error e) :
    guildWrites c guild m files dir times = [] := by
  rw [guildWrites, hsources]
  dsimp only
  rw [sourcesWrites, sourceWrites, addSources, addSource, hcompile]
  rfl

/-- A property of files that is kept whatever other guilds write, and whatever a guild writes
itself as long as its snapshot is not replaced. -/
structure Spares (c : BuildConfig) (guild : Uuid) (P : Files → Prop) : Prop where
  others : ∀ files path bytes other, other ≠ guild → IsFor c other path → P files →
    P (files.replace path bytes).1
  module : ∀ files path bytes, IsModule c guild path → P files → P (files.replace path bytes).1
  failed : ∀ files bytes,
    (files.replace (join c.cacheDir (guild.text ++ ".avc")) bytes).2 ≠ .ok () → P files →
      P (files.replace (join c.cacheDir (guild.text ++ ".avc")) bytes).1

namespace Spares

variable {P : Files → Prop}

theorem writeAll (hws : ∀ w ∈ ws, ∀ files, P files → P (files.replace w.path w.bytes).1)
    (h : P files) : P (files.writeAll ws) := by
  induction ws generalizing files with
  | nil => exact h
  | cons w ws ih =>
    obtain ⟨hw, hws⟩ := List.forall_mem_cons.1 hws
    exact ih hws (hw files h)

variable (hs : Spares c guild P) (hcache : c.policy.snapshotDir = some c.cacheDir)
variable (hm : Fits c m) (h : P files)

include hs hcache hm h

theorem buildOther (hne : other ≠ guild) : P (buildGuild c m files other dir times).2.2 := by
  rw [files_buildGuild]
  refine writeAll (fun w hw files => hs.others files _ _ other hne ?_) h
  exact isFor_of_mem_guildWrites hm hcache hw

theorem finishFailed (hfail : (finishGuild guild m files times).1 = .error e) :
    P (finishGuild guild m files times).2.2 := by
  rw [finishGuild] at hfail ⊢
  have hcompiled := hm.moves (m.compileAll_moves .blank (times 0) files guild)
  cases hcompile : m.compileAll (times 0) files guild with
  | mk result made =>
  rw [hcompile] at hcompiled hfail
  cases result with
  | error e => exact h
  | ok v =>
  have hpath : made.config.snapshotPath? guild =
      some (join c.cacheDir (guild.text ++ ".avc")) := by
    rw [hcompiled.config, Config.snapshotPath?, hcache]
    rfl
  dsimp only at hfail ⊢
  rw [Manager.storeGuild_eq hpath] at hfail ⊢
  have hfailed := hs.failed files (encodeGuild (made.toStore (times 1) guild).1)
  generalize files.replace _ _ = written at hfailed hfail ⊢
  obtain ⟨files', result⟩ := written
  cases result with
  | error e => exact hfailed (by simp) h
  | ok => cases hfail

theorem buildFailed (hfail : (buildGuild c m files guild dir times).1 = .error e) :
    P (buildGuild c m files guild dir times).2.2 := by
  rw [buildGuild] at hfail ⊢
  have hreset := hm.reset (times 0) guild
  cases hsources : policySources files dir with
  | error e => exact h
  | ok sources =>
    rw [hsources] at hfail
    dsimp only at hfail ⊢
    have hadded : Fits c (addSources c guild (m.reset (times 0) guild) files
        (fun k => times (k + 1)) sources).2.1 := hreset.addSources sources
    have hfiles : P (addSources c guild (m.reset (times 0) guild) files
        (fun k => times (k + 1)) sources).2.2 := by
      rw [files_addSources]
      exact writeAll (fun w hw files => hs.module files _ _ (isModule_of_mem_sourcesWrites hw)) h
    generalize addSources c guild (m.reset (times 0) guild) files _ sources = step
      at hadded hfiles hfail ⊢
    obtain ⟨result, made, files'⟩ := step
    cases result with
    | error e => exact hfiles
    | ok => exact hs.finishFailed hcache hadded hfiles hfail

/-- Turn after turn, as long as none of the guild itself succeeds. -/
theorem allTurns (hfail : ∀ s, (guild, .ok s) ∉ turns c m files clock guilds) :
    P (files.writeAll (guildsWrites c m files clock guilds)) := by
  induction guilds generalizing m files clock with
  | nil => exact h
  | cons turn guilds ih =>
    obtain ⟨other, dir⟩ := turn
    rw [writeAll_guildsWrites_cons]
    refine ih (hm.buildGuild.evict other) ?_ fun s hs => hfail s (List.mem_cons_of_mem _ hs)
    by_cases hne : other = guild
    · subst hne
      cases hresult : (buildGuild c m files other dir (clock 0)).1 with
      | ok s => exact absurd (hresult ▸ List.mem_cons_self ..) (hfail s)
      | error e => exact hs.buildFailed hcache hm h hresult
    · exact hs.buildOther hcache hm h hne

end Spares

end GuildPolicy.Build
