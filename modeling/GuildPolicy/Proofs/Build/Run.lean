import GuildPolicy.Proofs.Build.Turns

namespace GuildPolicy

open GuildPolicy.Path Files

namespace Manager

variable {m : Manager} {now : Nat} {files : Files} {guild : Uuid} {ms : ModuleSet}
variable {v : AccessVector}

/-- The access vector and the modules that a manager gives for a guild, whichever of them is asked
for first, and at whatever times. -/
structure Serves (m : Manager) (files : Files) (guild : Uuid) (v : AccessVector)
    (ms : ModuleSet) : Prop where
  vector : ∀ now, (m.vectorOf now files guild).1 = v
  modules : ∀ now, (m.modulesOf now files guild).1 = ms
  vector_then : ∀ now later,
    ((m.vectorOf now files guild).2.modulesOf later files guild).1 = ms
  modules_then : ∀ now later,
    ((m.modulesOf now files guild).2.vectorOf later files guild).1 = v

/-- A snapshot whose access vector its modules can be merged into is current again whenever it was
lost. -/
theorem rebuild_install (hb : ms.build = .ok v) (later : Nat) :
    ((m.install now guild (.restored ms) (some v)).rebuild later guild (.restored ms)).1 =
      some v := by
  have hheld : (m.install now guild (.restored ms) (some v)).held guild =
      some ⟨m.nextSerial, v⟩ := IdleCache.peek_insert_self
  have hmerged : (GuildState.restored ms).merged = some ms := rfl
  rcases rebuild_cases (m.install now guild (.restored ms) (some v)) later guild hmerged with
    ⟨p, hp, he⟩ | he
  · rw [hheld] at hp
    cases hp
    exact he
  · rw [he, hb]
    rfl

theorem serves_of_read {config : Config} {path : String}
    (hpath : config.snapshotPath? guild = some path)
    (hread : readGuildFile files path = .ok ⟨v, ms⟩) (hb : ms.build = .ok v) :
    (make config).Serves files guild v ms := by
  have hrestore (now : Nat) : (make config).restore now files guild =
      (some (.restored ms), (make config).install now guild (.restored ms) (some v)) :=
    restore_of_read rfl hpath hread
  have hvector (now : Nat) : (make config).vectorOf now files guild = (v,
      (((make config).install now guild (.restored ms) (some v)).rebuild now guild
        (.restored ms)).2) := by
    rw [vectorOf, show (make config).cached now guild = (none, make config) from rfl]
    dsimp only
    rw [hrestore]
    dsimp only
    rw [rebuild_install hb]
    rfl
  have hmodules (now : Nat) : (make config).modulesOf now files guild =
      (ms, (make config).install now guild (.restored ms) (some v)) := by
    rw [modulesOf, hrestore]
    rfl
  have hresident (now : Nat) : ((make config).install now guild (.restored ms)
      (some v)).guilds.get? guild = some (.restored ms) := Table.get?_insert_self ..
  refine ⟨fun now => ?_, fun now => ?_, fun now later => ?_, fun now later => ?_⟩
  · rw [hvector]
  · rw [hmodules]
  · rw [hvector]
    dsimp only
    rw [modulesOf_of_resident (rebuild_guilds.symm ▸ hresident now)]
    rfl
  · rw [hmodules]
    dsimp only
    rw [vectorOf_of_resident (hresident now), rebuild_install hb]
    rfl

end Manager

namespace Build

variable {c : BuildConfig} {guild other : Uuid} {m : Manager} {files initial : Files}
variable {root : List String} {dir : String} {guilds : List (Uuid × String)}
variable {times : Nat → Nat} {clock : Nat → Nat → Nat}

theorem named_of_guildDirs (hproper : files.Proper)
    (h : guildDirs files c.sourceDir = .ok guilds) : ∃ root,
      files.directory? c.sourceDir = .ok root ∧
      ∀ e ∈ guilds, ∃ name, Uuid.parse? name = some e.1 ∧ e.2 = join c.sourceDir name ∧
        IsName name ∧ files.entryAt? (root ++ [name]) = some .directory := by
  rw [guildDirs] at h
  split at h
  · cases h
  next entries hlist =>
  cases h
  obtain ⟨root, hroot, hentries⟩ := mem_of_list hlist
  refine ⟨root, hroot, fun e he => ?_⟩
  obtain ⟨⟨name, entry⟩, hmem, hguild⟩ := List.mem_filterMap.1 (List.mem_mergeSort.1 he)
  cases entry with
  | file bytes => cases hguild
  | directory =>
    obtain ⟨g, hg, rfl⟩ := Option.map_eq_some_iff.1 hguild
    have hget := (hentries name .directory).1 hmem
    have hname : IsName name :=
      hproper _ (Table.contains_iff_mem_keys.1 (Option.isSome_of_eq_some hget)) name
        (List.mem_append_right _ (List.mem_singleton_self name))
    refine ⟨name, hg, rfl, hname, ?_⟩
    rw [entryAt?]
    split
    · rfl
    · exact hget

theorem guildDir_of_mem (hproper : files.Proper)
    (h : guildDirs files c.sourceDir = .ok guilds) : ∃ root,
      files.directory? c.sourceDir = .ok root ∧
      ∀ e ∈ guilds, files.GuildDir c.sourceDir root e.2 := by
  obtain ⟨root, hroot, hnamed⟩ := named_of_guildDirs hproper h
  refine ⟨root, hroot, fun e he => ⟨hroot, ?_⟩⟩
  obtain ⟨name, -, hdir, hname, hentry⟩ := hnamed e he
  exact ⟨name, hdir, hname, hentry⟩

theorem guildDirs_eq {entries : List (String × FileEntry)} (hlist : files.list dir = .ok entries)
    (hguilds : (entries.filterMap fun e =>
      match e.2 with
      | .directory => (Uuid.parse? e.1).map (·, join dir e.1)
      | .file _ => none) = guilds)
    (hsorted : guilds.Pairwise fun g g' => g.1.toNat ≤ g'.1.toNat) :
    guildDirs files dir = .ok guilds := by
  rw [guildDirs, hlist]
  dsimp only
  refine congrArg Except.ok ((congrArg (List.mergeSort · _) hguilds).trans ?_)
  exact List.mergeSort_of_pairwise (hsorted.imp fun h => decide_eq_true h)

theorem buildGuild_leaves (hm : Fits c m) (hcache : c.policy.snapshotDir = some c.cacheDir)
    (hclear : Clear c initial root) (hagrees : Agrees root initial files) :
    Agrees root initial (buildGuild c m files guild dir times).2.2 ∧
      ∀ other ≠ guild, ∀ s, Stored c files other s →
        Stored c (buildGuild c m files guild dir times).2.2 other s := by
  have hfor : ∀ w ∈ guildWrites c guild m files dir times, IsFor c guild w.path :=
    fun w => isFor_of_mem_guildWrites hm hcache
  rw [files_buildGuild]
  refine ⟨agrees_writeAll hagrees hfor hclear, ?_⟩
  rintro other hne s ⟨bytes, hread, hdecode⟩
  exact ⟨bytes, read_writeAll_of_ne hfor hne hread, hdecode⟩

/-- The summaries are those of the guilds whose policy files make something, in order, and what
these make is stored. -/
structure Settled (c : BuildConfig) (initial after : Files) (guilds : List (Uuid × String))
    (built : List GuildSummary) : Prop where
  order : (built.map GuildSummary.guild).Sublist (guilds.map Prod.fst)
  built : ∀ s, s ∈ built ↔ ∃ g dir ms v, (g, dir) ∈ guilds ∧ Makes initial dir ms v ∧
    s = ⟨g, ms.keys, v.names.size⟩
  stored : ∀ g dir ms v, (g, dir) ∈ guilds → Makes initial dir ms v → Stored c after g ⟨v, ms⟩

namespace Settled

variable {after : Files} {built : List GuildSummary} {ms : ModuleSet} {v : AccessVector}

theorem nil : Settled c initial after [] [] where
  order := .slnil
  built _ := ⟨nofun, nofun⟩
  stored := nofun

theorem cons_of_makes (h : Settled c initial after guilds built) (hmakes : Makes initial dir ms v)
    (hstored : Stored c after guild ⟨v, ms⟩) : Settled c initial after ((guild, dir) :: guilds)
      (⟨guild, ms.keys, v.names.size⟩ :: built) where
  order := h.order.cons_cons guild
  built s := by
    rw [List.mem_cons, h.built]
    constructor
    · rintro (rfl | ⟨g, d, ms', v', hgd, hmakes', rfl⟩)
      · exact ⟨guild, dir, ms, v, List.mem_cons_self .., hmakes, rfl⟩
      · exact ⟨g, d, ms', v', List.mem_cons_of_mem _ hgd, hmakes', rfl⟩
    · rintro ⟨g, d, ms', v', hgd, hmakes', rfl⟩
      rcases List.mem_cons.1 hgd with hgd | hgd
      · cases hgd
        obtain ⟨rfl, rfl⟩ := hmakes.unique hmakes'
        exact .inl rfl
      · exact .inr ⟨g, d, ms', v', hgd, hmakes', rfl⟩
  stored g d ms' v' hgd hmakes' := by
    rcases List.mem_cons.1 hgd with hgd | hgd
    · cases hgd
      obtain ⟨rfl, rfl⟩ := hmakes.unique hmakes'
      exact hstored
    · exact h.stored g d ms' v' hgd hmakes'

theorem cons_of_not_makes (h : Settled c initial after guilds built)
    (hnone : ∀ ms v, ¬Makes initial dir ms v) :
    Settled c initial after ((guild, dir) :: guilds) built where
  order := h.order.cons guild
  built s := by
    rw [h.built]
    constructor
    · rintro ⟨g, d, ms, v, hgd, hmakes, rfl⟩
      exact ⟨g, d, ms, v, List.mem_cons_of_mem _ hgd, hmakes, rfl⟩
    · rintro ⟨g, d, ms, v, hgd, hmakes, rfl⟩
      rcases List.mem_cons.1 hgd with hgd | hgd
      · cases hgd
        exact absurd hmakes (hnone ms v)
      · exact ⟨g, d, ms, v, hgd, hmakes, rfl⟩
  stored g d ms v hgd hmakes := by
    rcases List.mem_cons.1 hgd with hgd | hgd
    · cases hgd
      exact absurd hmakes (hnone ms v)
    · exact h.stored g d ms v hgd hmakes

end Settled

/-- A later turn finds what an earlier one found, and leaves what it stored. -/
theorem buildGuilds_settled (hcache : c.policy.snapshotDir = some c.cacheDir)
    (hproper : initial.Proper) (hdirs : ∀ e ∈ guilds, initial.GuildDir c.sourceDir root e.2)
    (hdistinct : (guilds.map Prod.fst).Nodup)
    (hclear : Clear c initial root) (hm : Fits c m) (hagrees : Agrees root initial files)
    (hw : files.Writable (guildsWrites c m files clock guilds)) (report : BuildReport) :
    ∃ built report' after, buildGuilds c m files report clock guilds = (report', after) ∧
      report'.built = report.built ++ built ∧ Settled c initial after guilds built ∧
      ∀ other ∉ guilds.map Prod.fst, ∀ s, Stored c files other s → Stored c after other s := by
  induction guilds generalizing m files report clock with
  | nil =>
    exact ⟨[], report, files, rfl, (List.append_nil _).symm, .nil, fun _ _ _ h => h⟩
  | cons e guilds ih =>
    obtain ⟨guild, dir⟩ := e
    obtain ⟨hdir, hdirs⟩ := List.forall_mem_cons.1 hdirs
    obtain ⟨hnew, hdistinct⟩ := List.nodup_cons.1 hdistinct
    obtain ⟨hturn, hrest⟩ := writable_append_iff.1 hw
    obtain ⟨hagrees', hothers⟩ :
        Agrees root initial (buildGuild c m files guild dir (clock 0)).2.2 ∧ _ :=
      buildGuild_leaves hm hcache hclear hagrees
    have hm' : Fits c ((buildGuild c m files guild dir (clock 0)).2.1.evict guild) :=
      hm.buildGuild.evict guild
    rw [← files_buildGuild] at hrest
    rw [buildGuilds]
    rcases buildGuild_cases hm hcache hproper hdir hclear hagrees hturn with
      ⟨ms, v, hmakes, m', files', hbuild, hstored⟩ | ⟨hnone, e, m', files', hbuild⟩
    · rw [hbuild] at hrest hagrees' hothers hm' ⊢
      obtain ⟨built, report', after, hrun, hbuilt, hsettled, hkeeps⟩ :=
        ih hdirs hdistinct hm' hagrees' hrest
          { report with built := report.built ++ [⟨guild, ms.keys, v.names.size⟩] }
      refine ⟨⟨guild, ms.keys, v.names.size⟩ :: built, report', after, hrun, ?_,
        hsettled.cons_of_makes hmakes (hkeeps guild hnew _ hstored), fun other hother s hs => ?_⟩
      · rw [hbuilt, List.append_assoc]
        rfl
      · obtain ⟨hne, hother⟩ := not_or.1 (mt List.mem_cons.2 hother)
        exact hkeeps other hother s (hothers other hne s hs)
    · rw [hbuild] at hrest hagrees' hothers hm' ⊢
      obtain ⟨built, report', after, hrun, hbuilt, hsettled, hkeeps⟩ :=
        ih hdirs hdistinct hm' hagrees' hrest
          { report with failed := report.failed ++ [(guild, e)] }
      refine ⟨built, report', after, hrun, hbuilt, hsettled.cons_of_not_makes hnone,
        fun other hother s hs => ?_⟩
      obtain ⟨hne, hother⟩ := not_or.1 (mt List.mem_cons.2 hother)
      exact hkeeps other hother s (hothers other hne s hs)

theorem snapshotDir_make (sourceDir cacheDir : String) :
    (BuildConfig.make sourceDir cacheDir).policy.snapshotDir =
      some (BuildConfig.make sourceDir cacheDir).cacheDir := rfl

/-- A build reports the guilds whose policy files make something, and a new manager that looks
where it wrote finds what they make. Whatever was stored before has no part in it, and neither has
the time it all takes. -/
theorem build_exact (c : BuildConfig) (files : Files) (clock : Nat → Nat → Nat)
    (guilds : List (Uuid × String)) (root : List String)
    (hcache : c.policy.snapshotDir = some c.cacheDir) (hproper : files.Proper)
    (hguilds : guildDirs files c.sourceDir = .ok guilds)
    (hdistinct : (guilds.map Prod.fst).Nodup) (hroot : files.directory? c.sourceDir = .ok root)
    (houtside : Outside c files root) (hgrounded : Grounded c files root)
    (hwrites : files.Writable (writes c files clock)) :
    ∃ report after, buildAll c files clock = (.ok report, after) ∧
      (report.built.map GuildSummary.guild).Sublist (guilds.map Prod.fst) ∧
      ∀ guild dir, (guild, dir) ∈ guilds →
        ((∃ s ∈ report.built, s.guild = guild) ↔ ∃ ms v, Makes files dir ms v) ∧
        ∀ ms v, Makes files dir ms v →
          (∀ s ∈ report.built, s.guild = guild → s = ⟨guild, ms.keys, v.names.size⟩) ∧
          (Manager.make c.policy).Serves after guild v ms := by
  obtain ⟨root', hroot', hdirs⟩ := guildDir_of_mem hproper hguilds
  obtain rfl := Except.ok.inj (hroot'.symm.trans hroot)
  rw [writes, hguilds] at hwrites
  obtain ⟨built, report, after, hrun, hbuilt, hsettled, -⟩ :=
    buildGuilds_settled hcache hproper hdirs hdistinct (clear_of_outside houtside hgrounded)
      (.make c) (.refl _ files) hwrites .blank
  obtain rfl : report.built = built := hbuilt
  -- No two directories are those of one guild.
  have hdir {guild : Uuid} {dir dir' : String} (h : (guild, dir) ∈ guilds)
      (h' : (guild, dir') ∈ guilds) : dir' = dir :=
    congrArg Prod.snd (List.inj_on_of_nodup_map hdistinct h' h rfl)
  refine ⟨report, after, ?_, hsettled.order, fun guild dir hguild => ⟨⟨?_, ?_⟩, ?_⟩⟩
  · rw [buildAll, hguilds]
    dsimp only
    rw [hrun]
  · rintro ⟨s, hs, rfl⟩
    obtain ⟨g, dir', ms, v, hguild', hmakes, rfl⟩ := (hsettled.built s).1 hs
    exact ⟨ms, v, hdir hguild hguild' ▸ hmakes⟩
  · rintro ⟨ms, v, hmakes⟩
    exact ⟨_, (hsettled.built _).2 ⟨guild, dir, ms, v, hguild, hmakes, rfl⟩, rfl⟩
  · intro ms v hmakes
    refine ⟨fun s hs he => ?_, ?_⟩
    · obtain ⟨g, dir', ms', v', hguild', hmakes', rfl⟩ := (hsettled.built s).1 hs
      obtain rfl : g = guild := he
      obtain ⟨rfl, rfl⟩ := hmakes.unique (hdir hguild hguild' ▸ hmakes')
      rfl
    · obtain ⟨bytes, hread, hdecode⟩ := hsettled.stored guild dir ms v hguild hmakes
      have hpath : c.policy.snapshotPath? guild =
          some (join c.cacheDir (guild.text ++ ".avc")) := by
        rw [Config.snapshotPath?, hcache]
        rfl
      exact Manager.serves_of_read hpath (readGuildFile_of_read hread hdecode) hmakes.merged

/-- A guild with two policy files, the second of which replaces the module of the first, and with
what is left of earlier builds: a module that is in the way of none, and a snapshot that is none. -/
def leftover : Files where
  entries := .ofList [
    (["src"], .directory),
    (["src", (1 : Uuid).text], .directory),
    (["src", (1 : Uuid).text, "b.policy"], .file <| Text.encodeUtf8
      "module \x7b name 'base' \x7d require \x7b type a; type b \x7d".toList),
    (["src", (1 : Uuid).text, "a.policy"], .file <| Text.encodeUtf8
      "module \x7b name 'base' \x7d require \x7b type a \x7d".toList),
    (["cache"], .directory),
    (["cache", "modules"], .directory),
    (["cache", "modules", (1 : Uuid).text], .directory),
    (["cache", "modules", (1 : Uuid).text, "old.pm"], .file []),
    (["cache", (1 : Uuid).text ++ ".avc"], .file [0])]
  working := []

/-- An hour between one call of the manager and the next, after which it has no access vector left
that it merged. -/
def slowly (_ call : Nat) : Nat := call * 3600000

theorem guildDirs_leftover :
    guildDirs leftover "src" = .ok [(1, join "src" (1 : Uuid).text)] := by
  have hplace : leftover.directory? "src" = .ok ["src"] := by decide
  have hlist : leftover.list "src" = .ok [((1 : Uuid).text, .directory)] :=
    list_eq hplace (by decide) (List.pairwise_singleton ..)
  exact guildDirs_eq hlist (by decide) (List.pairwise_singleton ..)

theorem policySources_leftover : policySources leftover (join "src" (1 : Uuid).text) =
    .ok (["a.policy", "b.policy"].map (join (join "src" (1 : Uuid).text))) := by
  have hplace : leftover.directory? (join "src" (1 : Uuid).text) =
      .ok ["src", (1 : Uuid).text] := by decide
  rw [policySources_eq hplace (List.reverse_perm _).symm (by decide)]
  decide

theorem run_leftover : leftover.Writable (writes (.make "src" "cache") leftover slowly) ∧
    (buildAll (.make "src" "cache") leftover slowly).1.toOption.map BuildReport.built =
      some [⟨1, ["base"], 2⟩] := by
  rw [writes, buildAll, show (BuildConfig.make "src" "cache").sourceDir = "src" from rfl,
    guildDirs_leftover]
  dsimp only
  rw [guildsWrites, guildWrites, buildGuilds, buildGuild, policySources_leftover]
  decide +kernel

/-- The guild has one module, with the types of the second file, whatever there was before. -/
theorem build_exact_leftover : ∃ report after ms v,
    buildAll (.make "src" "cache") leftover slowly = (.ok report, after) ∧
    report.built = [⟨1, ["base"], 2⟩] ∧
    Makes leftover (join "src" (1 : Uuid).text) ms v ∧
    ms.keys = ["base"] ∧ v.names.size = 2 ∧
    (Manager.make (BuildConfig.make "src" "cache").policy).Serves after 1 v ms := by
  obtain ⟨hwrites, hbuilt⟩ := run_leftover
  have houtside : Outside (.make "src" "cache") leftover ["src"] :=
    outside_of_not_above (by decide +kernel)
  obtain ⟨report, after, hrun, -, hguilds⟩ := build_exact (.make "src" "cache") leftover
    slowly _ ["src"] (snapshotDir_make _ _) (by decide +kernel) guildDirs_leftover
    (List.nodup_singleton _) (by decide +kernel) houtside (grounded_of_notMem (by decide +kernel))
    hwrites
  obtain ⟨hreported, hmade⟩ := hguilds 1 _ (List.mem_singleton_self _)
  rw [hrun] at hbuilt
  have hsummary : report.built = [⟨1, ["base"], 2⟩] := Option.some.inj hbuilt
  rw [hsummary] at hreported hmade
  obtain ⟨ms, v, hmakes⟩ := hreported.1 ⟨_, List.mem_singleton_self _, rfl⟩
  obtain ⟨hone, hserves⟩ := hmade ms v hmakes
  obtain ⟨-, hkeys, hsize⟩ := GuildSummary.mk.inj (hone _ (List.mem_singleton_self _) rfl)
  exact ⟨report, after, ms, v, hrun, hsummary, hmakes, hkeys.symm, hsize.symm, hserves⟩

/-- Two guilds without policy files, and a file in another directory. -/
def bare : Files where
  entries := .ofList [
    (["src"], .directory),
    (["src", (1 : Uuid).text], .directory),
    (["src", (2 : Uuid).text], .directory),
    (["a"], .directory),
    (["a", "c"], .file [])]
  working := []

/-- The cache directory is beside the source directory, by a path through a directory that is
missing in the directory of a guild. -/
def throughSources : BuildConfig :=
  .make "src" ("src/" ++ (2 : Uuid).text ++ "/x.policy/../../../cache")

/-- The turn of the first guild leaves a directory among the policy files of the second one. -/
def bareCrossed : Files :=
  ((bare.put ["src", (2 : Uuid).text, "x.policy"] .directory).put ["cache"] .directory).put
    ["cache", (1 : Uuid).text ++ ".avc"] (.file (encodeGuild .blank))

theorem guildDirs_bare : guildDirs bare "src" =
    .ok [(1, join "src" (1 : Uuid).text), (2, join "src" (2 : Uuid).text)] := by
  have hplace : bare.directory? "src" = .ok ["src"] := by decide
  have hlist : bare.list "src" =
      .ok [((1 : Uuid).text, .directory), ((2 : Uuid).text, .directory)] :=
    list_eq hplace (by decide) (by decide)
  exact guildDirs_eq hlist (by decide) (by decide)

theorem policySources_bare : policySources bare (join "src" (1 : Uuid).text) = .ok [] ∧
    policySources bare (join "src" (2 : Uuid).text) = .ok [] := by
  have hplace : bare.directory? (join "src" (1 : Uuid).text) = .ok ["src", (1 : Uuid).text] := by
    decide
  have hplace' : bare.directory? (join "src" (2 : Uuid).text) = .ok ["src", (2 : Uuid).text] := by
    decide
  exact ⟨policySources_eq hplace (by decide) .nil, policySources_eq hplace' (by decide) .nil⟩

theorem bareCrossed_fails : finished throughSources 1 .empty bare = (.ok ⟨1, [], 0⟩, bareCrossed) ∧
    policySources bareCrossed (join "src" (2 : Uuid).text) =
      .ok [join (join "src" (2 : Uuid).text) "x.policy"] ∧
    compileFile .platform bareCrossed (join (join "src" (2 : Uuid).text) "x.policy") =
      .error (.file (join (join "src" (2 : Uuid).text) "x.policy") .isDirectory) := by
  have hplace : bareCrossed.directory? (join "src" (2 : Uuid).text) =
      .ok ["src", (2 : Uuid).text] := by decide
  have hsources : policySources bareCrossed (join "src" (2 : Uuid).text) =
      .ok [join (join "src" (2 : Uuid).text) "x.policy"] :=
    @policySources_eq _ _ _ [("x.policy", .directory)] hplace (by decide)
      (List.pairwise_singleton ..)
  exact ⟨by decide +kernel, hsources, by decide⟩

theorem turns_throughSources :
    turns throughSources (.make throughSources.policy) bare clock
      [(1, join "src" (1 : Uuid).text), (2, join "src" (2 : Uuid).text)] =
      [(1, .ok ⟨1, [], 0⟩),
        (2, .error (.file (join (join "src" (2 : Uuid).text) "x.policy") .isDirectory))] := by
  obtain ⟨hfinished, hsources, hcompile⟩ := bareCrossed_fails
  obtain ⟨m, hm, hfirst⟩ := turns_cons_of_nil (.make throughSources) (snapshotDir_make _ _)
    policySources_bare.1
  obtain ⟨m', -, hsecond⟩ := turns_cons_of_error hm hsources hcompile
  rw [hfirst, hfinished]
  dsimp only
  rw [hsecond, turns]

theorem writes_throughSources : writes throughSources bare clock =
    [⟨join throughSources.cacheDir ((1 : Uuid).text ++ ".avc"), encodeGuild .blank⟩] := by
  obtain ⟨hfinished, hsources, hcompile⟩ := bareCrossed_fails
  have hm : Fits throughSources (.make throughSources.policy) := .make throughSources
  obtain ⟨m, -, hfirst⟩ : ∃ m, Fits throughSources m ∧ buildGuild throughSources
      (.make throughSources.policy) bare 1 (join "src" (1 : Uuid).text) (clock 0) = _ :=
    buildGuild_of_nil hm (snapshotDir_make _ _) policySources_bare.1
  rw [writes, show throughSources.sourceDir = "src" from rfl, guildDirs_bare]
  dsimp only
  rw [guildsWrites, guildWrites_of_nil hm (snapshotDir_make _ _) policySources_bare.1, hfirst,
    hfinished]
  dsimp only
  rw [guildsWrites, guildWrites_of_error hsources hcompile]
  rfl

/-- Where the path of the cache directory goes up from a policy file that is missing, a guild that
has none may fail, although the cache directory is outside and everything can be written. -/
theorem build_crossed :
    guildDirs bare throughSources.sourceDir =
      .ok [(1, join "src" (1 : Uuid).text), (2, join "src" (2 : Uuid).text)] ∧
    bare.directory? throughSources.sourceDir = .ok ["src"] ∧
    Outside throughSources bare ["src"] ∧
    bare.Writable (writes throughSources bare fun _ _ => 0) ∧
    Makes bare (join "src" (2 : Uuid).text) .empty .empty ∧
    ∃ report after, buildAll throughSources bare = (.ok report, after) ∧
      ¬∃ s ∈ report.built, s.guild = 2 := by
  have houtside : Outside throughSources bare ["src"] := outside_of_not_above (by decide +kernel)
  have hmakes : Makes bare (join "src" (2 : Uuid).text) .empty .empty :=
    makes_iff.2 ⟨[], [], policySources_bare.2, .nil, rfl, rfl⟩
  refine ⟨guildDirs_bare, by decide, houtside, ?_, hmakes, _, _, buildAll_eq guildDirs_bare, ?_⟩
  · obtain ⟨v, hmerged, hreplace, -⟩ := replace_of_finished bareCrossed_fails.1
    obtain rfl : v = .empty := Except.ok.inj hmerged.symm
    rw [writes_throughSources]
    exact ⟨congrArg Prod.snd hreplace, by decide, trivial⟩
  · rw [turns_throughSources]
    decide

end Build

end GuildPolicy
