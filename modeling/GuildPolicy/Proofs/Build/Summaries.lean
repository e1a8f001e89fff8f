import GuildPolicy.Proofs.Build.Run
import GuildPolicy.Proofs.Build.Turns

namespace GuildPolicy.Build

open GuildPolicy.Path Files

variable {c : BuildConfig} {guild : Uuid} {m : Manager} {files : Files} {ms : ModuleSet}
variable {path source dir : String} {sources : List String} {guilds : List (Uuid × String)}
variable {s : GuildSummary} {now : Nat} {times : Nat → Nat} {clock : Nat → Nat → Nat}

/-- The stored snapshot of a guild has the modules of a summary and as many types. -/
def Describes (c : BuildConfig) (files : Files) (s : GuildSummary) : Prop :=
  ∃ snapshot : GuildSnapshot,
    files.read (join c.cacheDir (s.guild.text ++ ".avc")) = .ok (encodeGuild snapshot) ∧
      snapshot.validate = .ok () ∧ snapshot.modules.keys = s.modules ∧
      snapshot.vector.names.size = s.types

namespace Loaded

theorem of_loadFile (h : Loaded c m guild ms)
    (hok : (m.loadFile now files guild path).1 = .ok ()) :
    ∃ ms', Loaded c (m.loadFile now files guild path).2 guild ms' := by
  rw [Manager.loadFile] at hok ⊢
  cases hfile : readModuleFile files path with
  | error e =>
    rw [hfile] at hok
    cases hok
  | ok module =>
  rw [hfile] at hok
  dsimp only at hok ⊢
  cases hvalid : module.validate with
  | error e =>
    rw [Manager.load, hvalid] at hok
    cases hok
  | ok =>
    obtain ⟨m', hload, hloaded⟩ : ∃ m', m.load now files guild module = (.ok (), m') ∧ _ :=
      h.load files hvalid
    rw [hload]
    exact ⟨_, hloaded⟩

theorem of_addSource (h : Loaded c m guild ms)
    (hok : (addSource c guild m files now source).1 = .ok ()) :
    ∃ ms', Loaded c (addSource c guild m files now source).2.1 guild ms' := by
  rw [addSource] at hok ⊢
  cases hfile : compileFile .platform files source with
  | error e =>
    rw [hfile] at hok
    cases hok
  | ok module =>
  rw [hfile] at hok
  dsimp only at hok ⊢
  cases hname : snapshotFileName module.name with
  | error e =>
    rw [hname] at hok
    cases hok
  | ok name =>
  rw [hname] at hok
  dsimp only at hok ⊢
  generalize storeModule files _ module = stored at hok ⊢
  obtain ⟨files', result⟩ := stored
  cases result with
  | error e => cases hok
  | ok => exact h.of_loadFile hok

theorem of_addSources (h : Loaded c m guild ms)
    (hok : (addSources c guild m files times sources).1 = .ok ()) :
    ∃ ms', Loaded c (addSources c guild m files times sources).2.1 guild ms' := by
  induction sources generalizing m files ms times with
  | nil => exact ⟨ms, h⟩
  | cons source sources ih =>
    rw [addSources] at hok ⊢
    have hstep : (addSource c guild m files (times 0) source).1 = .ok () → _ := h.of_addSource
    generalize addSource c guild m files (times 0) source = step at hok hstep ⊢
    obtain ⟨result, m', files'⟩ := step
    cases result with
    | error e => cases hok
    | ok =>
      obtain ⟨ms', hloaded⟩ := hstep rfl
      exact ih hloaded hok

end Loaded

theorem describes_of_finished (hvalid : ms.Valid)
    (hok : (finished c guild ms files).1 = .ok s) :
    Describes c (finished c guild ms files).2 s := by
  obtain ⟨v, hb, hreplace, rfl⟩ := replace_of_finished (Prod.ext hok rfl)
  exact ⟨⟨v, ms⟩, read_replace hreplace,
    GuildSnapshot.validate_eq_ok_iff.2 ⟨hvalid.build hb, hvalid⟩, rfl, rfl⟩

/-- A turn that succeeds leaves the snapshot that its summary describes. -/
theorem describes_of_buildGuild (hm : Fits c m) (hcache : c.policy.snapshotDir = some c.cacheDir)
    (hok : (buildGuild c m files guild dir times).1 = .ok s) :
    Describes c (buildGuild c m files guild dir times).2.2 s := by
  rw [buildGuild] at hok ⊢
  have hreset : Loaded c (m.reset (times 0) guild) guild .empty := hm.loaded_reset (times 0) guild
  cases hsources : policySources files dir with
  | error e =>
    rw [hsources] at hok
    cases hok
  | ok sources =>
  rw [hsources] at hok
  dsimp only at hok ⊢
  have hadd : (addSources c guild (m.reset (times 0) guild) files (fun k => times (k + 1))
      sources).1 = .ok () → _ := hreset.of_addSources
  generalize addSources c guild (m.reset (times 0) guild) files _ sources = step at hok hadd ⊢
  obtain ⟨result, m', files'⟩ := step
  cases result with
  | error e => cases hok
  | ok =>
    obtain ⟨ms, hloaded⟩ := hadd rfl
    dsimp only at hok ⊢
    obtain ⟨m'', hfinish⟩ : ∃ m'', finishGuild guild m' files' _ = _ :=
      hloaded.finishGuild_eq hcache
    rw [hfinish] at hok ⊢
    exact describes_of_finished (hloaded.fits.valid.state _ _ hloaded.resident).modules hok

theorem spares_read (c : BuildConfig) (guild : Uuid) (kept : List UInt8) :
    Spares c guild fun fs => fs.read (join c.cacheDir (guild.text ++ ".avc")) = .ok kept where
  others fs path bytes other hne hfor hr := read_replace_of_ne hfor (Ne.symm hne) hr
  module fs path bytes hmodule hr := by
    obtain ⟨name, hslash, rfl⟩ := hmodule
    refine read_replace_snapshot (isName_append hslash (by decide) (by decide)) (fun _ heq => ?_) hr
    have hlast := getLast?_append name ".pm" (by decide)
    rw [heq, getLast?_append _ _ (by decide)] at hlast
    cases hlast
  failed fs bytes hfail hr :=
    read_replace_snapshot (isName_snapshot guild) (fun hdone => absurd hdone hfail) hr

/-- The last turn of a guild that succeeds is the one whose snapshot stays. -/
theorem describes_of_turns {earlier later : List Result} (hm : Fits c m)
    (hcache : c.policy.snapshotDir = some c.cacheDir)
    (hturns : turns c m files clock guilds = earlier ++ (guild, .ok s) :: later)
    (hlater : ∀ s', (guild, .ok s') ∉ later) :
    Describes c (files.writeAll (guildsWrites c m files clock guilds)) s := by
  induction guilds generalizing m files clock earlier with
  | nil => exact absurd hturns.symm (List.append_ne_nil_of_right_ne_nil _ (List.cons_ne_nil _ _))
  | cons turn guilds ih =>
    obtain ⟨other, dir⟩ := turn
    have hm' : Fits c ((buildGuild c m files other dir (clock 0)).2.1.evict other) :=
      hm.buildGuild.evict other
    rw [turns] at hturns
    rw [writeAll_guildsWrites_cons]
    cases earlier with
    | cons result earlier => exact ih hm' (List.cons.inj hturns).2
    | nil =>
      obtain ⟨hresult, hrest⟩ := List.cons.inj hturns
      obtain ⟨rfl, hok⟩ := Prod.mk.inj hresult
      obtain ⟨snapshot, hread, hdescribed⟩ := describes_of_buildGuild hm hcache hok
      obtain rfl : s.guild = other := guild_of_buildGuild hok
      have hspared := (spares_read c s.guild _).allTurns hcache hm' hread (hrest ▸ hlater)
      exact ⟨snapshot, hspared, hdescribed⟩

/-- A build reports each directory under the guild whose id its name spells, so a guild is reported
once as long as no two names spell its id. The snapshot of a guild is the one that its last summary
describes. -/
theorem reported_once_iff (c : BuildConfig) (files : Files) (clock : Nat → Nat → Nat)
    (guilds : List (Uuid × String)) (hcache : c.policy.snapshotDir = some c.cacheDir)
    (hguilds : guildDirs files c.sourceDir = .ok guilds) :
    ∃ report after, buildAll c files clock = (.ok report, after) ∧
      (report.built.map GuildSummary.guild ++ report.failed.map Prod.fst).Perm
        (guilds.map Prod.fst) ∧
      ((report.built.map GuildSummary.guild ++ report.failed.map Prod.fst).Nodup ↔
        (guilds.map Prod.fst).Nodup) ∧
      (∀ earlier s later, report.built = earlier ++ s :: later →
        s.guild ∉ later.map GuildSummary.guild → Describes c after s) ∧
      ((guilds.map Prod.fst).Nodup → ∀ s ∈ report.built, Describes c after s) := by
  have hnamed : ∀ r ∈ turns c (.make c.policy) files clock guilds, r.Named :=
    fun r => named_of_mem_turns
  have hperm := perm_results hnamed
  rw [map_fst_turns] at hperm
  have hlast (earlier : List GuildSummary) (s : GuildSummary) (later : List GuildSummary)
      (hbuilt : summaries (turns c (.make c.policy) files clock guilds) = earlier ++ s :: later)
      (hnew : s.guild ∉ later.map GuildSummary.guild) :
      Describes c (files.writeAll (guildsWrites c (.make c.policy) files clock guilds)) s := by
    obtain ⟨before, after, hturns, hafter⟩ := turn_of_summary hnamed hbuilt
    refine describes_of_turns (.make c) hcache hturns fun s' hs' => hnew ?_
    have hguild : s'.guild = s.guild := hnamed (s.guild, .ok s')
      (hturns ▸ List.mem_append_right _ (List.mem_cons_of_mem _ hs')) s' rfl
    rw [← hafter, ← hguild]
    exact List.mem_map.2 ⟨s', mem_summaries hs', rfl⟩
  refine ⟨_, _, buildAll_eq hguilds, hperm, hperm.nodup_iff, hlast, fun hdistinct s hs => ?_⟩
  have hids := (List.nodup_append.1 (hperm.nodup_iff.2 hdistinct)).1
  obtain ⟨earlier, later, hbuilt⟩ :
      ∃ earlier later, summaries (turns c (.make c.policy) files clock guilds) =
        earlier ++ s :: later := List.append_of_mem hs
  rw [hbuilt, List.map_append, List.map_cons] at hids
  exact hlast earlier s later hbuilt (List.nodup_cons.1 (List.nodup_append.1 hids).2.1).1

/-- Two directories that spell one id, of which the first has a policy file. -/
def twins : Files where
  entries := .ofList [
    (["src"], .directory),
    (["src", (1 : Uuid).text], .directory),
    (["src", (1 : Uuid).text, "m.policy"], .file <| Text.encodeUtf8
      "module \x7b name 'm' \x7d require \x7b type a \x7d".toList),
    (["src", "00000000000000000000000000000001"], .directory)]
  working := []

theorem guildDirs_twins : guildDirs twins "src" = .ok [(1, join "src" (1 : Uuid).text),
    (1, join "src" "00000000000000000000000000000001")] := by
  have hplace : twins.directory? "src" = .ok ["src"] := by decide
  have hlist : twins.list "src" = .ok [((1 : Uuid).text, .directory),
      ("00000000000000000000000000000001", .directory)] :=
    list_eq hplace (by decide) (by decide)
  exact guildDirs_eq hlist (by decide) (by decide)

theorem policySources_twins : policySources twins (join "src" (1 : Uuid).text) =
    .ok [join (join "src" (1 : Uuid).text) "m.policy"] ∧
    policySources twins (join "src" "00000000000000000000000000000001") = .ok [] := by
  have hplace : twins.directory? (join "src" (1 : Uuid).text) = .ok ["src", (1 : Uuid).text] := by
    decide
  have hplace' : twins.directory? (join "src" "00000000000000000000000000000001") =
      .ok ["src", "00000000000000000000000000000001"] := by decide
  exact ⟨policySources_eq hplace (.refl _) (List.pairwise_singleton ..),
    policySources_eq hplace' (by decide) .nil⟩

theorem buildGuild_twins : ∃ m files,
    buildGuild (.make "src" "cache") (.make (BuildConfig.make "src" "cache").policy) twins 1
      (join "src" (1 : Uuid).text) (fun _ => 0) = (.ok ⟨1, ["m"], 1⟩, m, files) ∧
    Fits (.make "src" "cache") m ∧
    policySources files (join "src" "00000000000000000000000000000001") = .ok [] ∧
    (finished (.make "src" "cache") 1 .empty files).1 = .ok ⟨1, [], 0⟩ ∧
    (finished (.make "src" "cache") 1 .empty files).2.read
      (join "cache" ((1 : Uuid).text ++ ".avc")) = .ok (encodeGuild .blank) := by
  obtain ⟨hone, hnone⟩ := policySources_twins
  have hplace : twins.directory? "src" = .ok ["src"] := by decide
  have hclear : Clear (.make "src" "cache") twins ["src"] :=
    clear_of_outside (outside_of_not_above (by decide)) (grounded_of_notMem (by decide))
  have hdir : twins.GuildDir "src" ["src"] (join "src" "00000000000000000000000000000001") :=
    ⟨hplace, _, rfl, by decide, by decide⟩
  have hm : Fits (.make "src" "cache") (.make (BuildConfig.make "src" "cache").policy) := .make _
  have hfits := @Fits.buildGuild _ 1 _ twins (join "src" (1 : Uuid).text) (fun _ => 0) hm
  obtain ⟨hagrees, -⟩ := @buildGuild_leaves _ 1 _ _ _ _ (join "src" (1 : Uuid).text) (fun _ => 0)
    hm rfl hclear (.refl _ twins)
  generalize hturn : buildGuild _ _ twins _ _ _ = turn at hfits hagrees ⊢
  have hmade : turn.1 = .ok ⟨1, ["m"], 1⟩ ∧
      (finished (.make "src" "cache") 1 .empty turn.2.2).1 = .ok ⟨1, [], 0⟩ ∧
      (finished (.make "src" "cache") 1 .empty turn.2.2).2.read
        (join "cache" ((1 : Uuid).text ++ ".avc")) = .ok (encodeGuild .blank) := by
    rw [← hturn, buildGuild, hone]
    decide +kernel
  obtain ⟨result, m, files⟩ := turn
  obtain ⟨rfl, hempty⟩ := hmade
  exact ⟨m, files, rfl, hfits, (hagrees.policySources_eq hdir).trans hnone, hempty⟩

theorem buildAll_twins : ∃ after, buildAll (.make "src" "cache") twins =
    (.ok ⟨[⟨1, ["m"], 1⟩, ⟨1, [], 0⟩], []⟩, after) ∧
    after.read (join "cache" ((1 : Uuid).text ++ ".avc")) = .ok (encodeGuild .blank) := by
  obtain ⟨m, files, hfirst, hfits, hsources, hempty, hread⟩ := buildGuild_twins
  obtain ⟨m', -, hsecond⟩ : ∃ m', Fits (.make "src" "cache") m' ∧ buildGuild (.make "src" "cache")
      (m.evict 1) files 1 (join "src" "00000000000000000000000000000001") (fun _ => 0) = _ :=
    buildGuild_of_nil (hfits.evict 1) (snapshotDir_make _ _) hsources
  refine ⟨_, ?_, hread⟩
  rw [hempty] at hsecond
  rw [buildAll_of_guildDirs guildDirs_twins, buildGuilds_cons_ok hfirst,
    buildGuilds_cons_ok hsecond, buildGuilds]
  rfl

/-- A guild of which there are two directories is built twice. The snapshot of the second takes the
place of that of the first, and nothing reports it. -/
theorem reported_twice : ∃ after, buildAll (.make "src" "cache") twins =
    (.ok ⟨[⟨1, ["m"], 1⟩, ⟨1, [], 0⟩], []⟩, after) ∧
    ¬Describes (.make "src" "cache") after ⟨1, ["m"], 1⟩ := by
  obtain ⟨after, hrun, hread⟩ := buildAll_twins
  refine ⟨after, hrun, ?_⟩
  rintro ⟨snapshot, hread', hvalid, hkeys, -⟩
  have hencoded : encodeGuild snapshot = encodeGuild .blank :=
    Except.ok.inj (hread'.symm.trans hread)
  have hsize : (encodeGuild snapshot).length < UInt64.size := by
    rw [hencoded]
    decide
  have hdecoded := decodeGuild_encodeGuild hsize
  rw [hvalid, hencoded, decodeGuild_encodeGuild (hencoded ▸ hsize)] at hdecoded
  cases hdecoded
  cases hkeys

theorem reported_once_iff_twins : ∃ report after,
    buildAll (.make "src" "cache") twins = (.ok report, after) ∧
    report.built.map GuildSummary.guild = [1, 1] ∧
    Describes (.make "src" "cache") after ⟨1, [], 0⟩ := by
  obtain ⟨report, after, hrun, -, -, hlast, -⟩ := reported_once_iff (.make "src" "cache") twins
    (fun _ _ => 0) _ (snapshotDir_make _ _) guildDirs_twins
  obtain ⟨after', hrun', -⟩ := buildAll_twins
  cases hrun.symm.trans hrun'
  exact ⟨_, _, hrun, rfl, hlast [⟨1, ["m"], 1⟩] _ [] rfl List.not_mem_nil⟩

end GuildPolicy.Build
