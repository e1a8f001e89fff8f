import GuildPolicy.Proofs.Build.Lockstep
import GuildPolicy.Proofs.Build.Run

namespace GuildPolicy.Build

open GuildPolicy.Path Files

variable {c : BuildConfig} {guild other : Uuid} {m m' : Manager} {files alone fs fs' : Files}
variable {root place p : List String} {dir name : String} {guilds : List (Uuid × String)}
variable {clock : Nat → Nat → Nat} {times : Nat → Nat}

/-- The bytes of the snapshot of a guild, if there is one. -/
def snapshot? (c : BuildConfig) (files : Files) (guild : Uuid) : Option (List UInt8) :=
  (files.read (join c.cacheDir (guild.text ++ ".avc"))).toOption

/-- Files in which the directory of a guild is the only one of a guild in the source directory, as
others have it. Of what these have elsewhere nothing is missing. -/
structure Alone (c : BuildConfig) (files alone : Files) (root place : List String) (guild : Uuid)
    (dir : String) : Prop where
  working : alone.working = files.working
  proper : alone.Proper
  rooted : alone.Rooted
  guilds : guildDirs alone c.sourceDir = .ok [(guild, dir)]
  points : alone.Points c.cacheDir place
  entries : ∀ p, (∀ name other, Uuid.parse? name = some other → other ≠ guild →
    ¬root ++ [name] <+: p) → alone.entries.get? p = files.entries.get? p

theorem pairwise_of_guildDirs (h : guildDirs files dir = .ok guilds)
    (hdistinct : (guilds.map Prod.fst).Nodup) :
    (guilds.map Prod.fst).Pairwise fun g g' => g.toNat < g'.toNat := by
  rw [guildDirs] at h
  split at h
  · cases h
  next entries hlist =>
  cases h
  generalize hfound : List.filterMap _ entries = found at hdistinct ⊢
  have hsorted : (found.mergeSort fun a b => a.1.toNat ≤ b.1.toNat).Pairwise fun a b =>
      decide (a.1.toNat ≤ b.1.toNat) = true := by
    refine List.pairwise_mergeSort (fun a b c hab hbc => ?_) (fun a b => ?_) found
    · exact decide_eq_true (Nat.le_trans (of_decide_eq_true hab) (of_decide_eq_true hbc))
    · rw [Bool.or_eq_true, decide_eq_true_iff, decide_eq_true_iff]
      exact Nat.le_total ..
  refine List.pairwise_map.2 ((hsorted.and (List.pairwise_map.1 hdistinct)).imp ?_)
  rintro a b ⟨hle, hne⟩
  exact Nat.lt_of_le_of_ne (of_decide_eq_true hle) fun heq => hne (BitVec.eq_of_toNat_eq heq)

/-- A path into a directory is a path to what is below it, or its name is one of those that lead
there. -/
theorem mem_of_isPrefix_concat {names : List String} (h : root ++ [name] <+: place ++ names)
    (houtside : ¬root ++ [name] <+: place) : name ∈ names := by
  rcases List.prefix_or_prefix_of_prefix h (List.prefix_append place names) with hpre | ⟨t, ht⟩
  · exact absurd hpre houtside
  · rw [← ht, List.prefix_append_right_inj] at h
    cases t using List.reverseRecOn with
    | nil =>
      rw [List.append_nil] at ht
      exact absurd (ht ▸ List.prefix_refl _) houtside
    | append_singleton t last =>
      rw [← List.append_assoc] at ht
      obtain ⟨-, hlast⟩ := List.append_inj' ht rfl
      rw [← List.singleton_inj.1 hlast]
      exact h.subset (List.mem_append_right _ (List.mem_singleton_self last))

/-- A name that is no other guild's. -/
def Neutral (guild : Uuid) (name : String) : Prop :=
  ∀ other, Uuid.parse? name = some other → other = guild

theorem neutral_text (guild : Uuid) : Neutral guild guild.text := by
  intro other h
  rw [Uuid.parse?_text] at h
  exact (Option.some.inj h).symm

theorem neutral_of_mem {ch : Char} (hmem : ch ∈ name.toList)
    (hdigit : Uuid.hexValue? ch = none) (hmark : ch ∉ ['-', '\x7b', '\x7d'])
    (hurn : ch.toLower ∉ "urn:uuid:".toList) (guild : Uuid) : Neutral guild name :=
  fun _ h => absurd hmem (Uuid.notMem_of_parse? hdigit hmark hurn h)

theorem neutral_modules (guild : Uuid) : Neutral guild "modules" :=
  neutral_of_mem (by decide : 'm' ∈ "modules".toList) (by decide) (by decide) (by decide) guild

theorem neutral_of_dot (hdot : '.' ∈ name.toList) (guild : Uuid) : Neutral guild name :=
  neutral_of_mem hdot (by decide) (by decide) (by decide) guild

theorem neutral_moduleRoot (guild : Uuid) : ∀ name ∈ ["modules", guild.text], Neutral guild name :=
  List.forall_mem_cons.2 ⟨neutral_modules guild, List.forall_mem_singleton.2 (neutral_text guild)⟩

theorem Own.neutral (h : Own guild place p) :
    ∃ names, p = place ++ names ∧ ∀ name ∈ names, Neutral guild name := by
  cases h with
  | module hdot =>
    refine ⟨["modules", guild.text] ++ [_], List.append_assoc .., fun name hname => ?_⟩
    rcases List.mem_append.1 hname with hname | hname
    · exact neutral_moduleRoot guild name hname
    · exact List.mem_singleton.1 hname ▸ neutral_of_dot hdot guild
  | snapshot hdot =>
    refine ⟨_, rfl, List.forall_mem_singleton.2 (neutral_of_dot ?_ guild)⟩
    exact dot_mem_append hdot guild.text

namespace Alone

theorem entryAt?_eq (h : Alone c files alone root place guild dir)
    (hplace : cachePlace c files = place) (houtside : Outside c files root) {names : List String}
    (hnames : ∀ name ∈ names, Neutral guild name) (hp : p <+: place ++ names) :
    alone.entryAt? p = files.entryAt? p := by
  refine entryAt?_eq_of_get? h.working (h.entries p fun name other hother hne hpre => hne ?_)
  have houtside : ¬root ++ [name] <+: place := hplace ▸ houtside name
  exact hnames name (mem_of_isPrefix_concat (hpre.trans hp) houtside) other hother

theorem alike (h : Alone c files alone root place guild dir) (hrooted : files.Rooted)
    (hplace : files.Points c.cacheDir place) (houtside : Outside c files root) :
    Alike c guild place files alone where
  working := h.working
  rooted := hrooted
  rooted' := h.rooted
  points := hplace
  points' := h.points
  files p hp bytes := by rw [h.entryAt?_eq hplace.walk houtside (neutral_moduleRoot guild) hp]
  own p hp := by
    obtain ⟨names, rfl, hnames⟩ := hp.neutral
    exact (h.entryAt?_eq hplace.walk houtside hnames (List.prefix_refl _)).symm

theorem root_eq (h : Alone c files alone root place guild dir)
    (hroot : files.directory? c.sourceDir = .ok root) {root' : List String}
    (hroot' : alone.directory? c.sourceDir = .ok root') : root' = root := by
  rw [← walk_of_follow (follow_of_directory? hroot'), ← walk_of_follow (follow_of_directory? hroot),
    start, start, h.working]

theorem sameSources (h : Alone c files alone root place guild dir) (hproper : files.Proper)
    (hroot : files.directory? c.sourceDir = .ok root)
    (hguilds : guildDirs files c.sourceDir = .ok guilds) (hmem : (guild, dir) ∈ guilds) :
    SameSources root files alone dir := by
  obtain ⟨root', hroot', hnamed⟩ := named_of_guildDirs hproper hguilds
  obtain rfl := Except.ok.inj (hroot.symm.trans hroot')
  obtain ⟨name, hparse, hdir, hname, hentry⟩ := hnamed _ hmem
  obtain rfl : dir = join c.sourceDir name := hdir
  obtain ⟨root', halone, hdirs⟩ := guildDir_of_mem h.proper h.guilds
  obtain rfl := h.root_eq hroot halone
  have hguild' := hdirs _ (List.mem_singleton_self _)
  have hguild : files.GuildDir c.sourceDir root' _ := ⟨hroot, name, rfl, hname, hentry⟩
  have hinside (names : List String) : alone.entries.get? (root' ++ name :: names) =
      files.entries.get? (root' ++ name :: names) := by
    refine h.entries _ fun name' other hother hne hpre => hne ?_
    obtain ⟨rfl, -⟩ := List.cons_prefix_cons.1 ((List.prefix_append_right_inj root').1 hpre)
    exact Option.some.inj (hother.symm.trans hparse)
  have hdirectory : alone.directory? (join c.sourceDir name) =
      files.directory? (join c.sourceDir name) := by
    rw [directory?, directory?, find_join_congr (follow_of_directory? hroot)
      (follow_of_directory? halone) hname (entryAt?_eq_of_get? h.working (hinside []))]
  have hget {there : List String} (hthere : files.directory? (join c.sourceDir name) = .ok there)
      (file : String) :
      alone.entries.get? (there ++ [file]) = files.entries.get? (there ++ [file]) := by
    obtain rfl := place_of_join hroot hname hthere
    rw [List.append_assoc]
    exact hinside [file]
  have hsources : policySources alone (join c.sourceDir name) =
      policySources files (join c.sourceDir name) := by
    cases hthere : files.directory? (join c.sourceDir name) with
    | error f => rw [policySources, policySources, list, list, hdirectory, hthere]
    | ok there =>
      exact policySources_congr hthere (hdirectory.trans hthere) fun file _ => hget hthere file
  refine ⟨fun fs hfs => hfs.policySources_eq hguild,
    fun fs hfs => (hfs.policySources_eq hguild').trans hsources,
    fun paths hpaths fs fs' hfs hfs' source hsource => ?_⟩
  have halone : alone.readText source = files.readText source := by
    cases hthere : files.directory? (join c.sourceDir name) with
    | error f =>
      rw [policySources, list, hthere] at hpaths
      cases hpaths
    | ok there =>
      exact readText_congr hthere (hdirectory.trans hthere) (fun file _ => hget hthere file)
        h.working hproper hpaths hsource
  rw [hfs.readText_eq hproper hguild hpaths hsource,
    hfs'.readText_eq h.proper hguild' (hsources.trans hpaths) hsource, halone]

end Alone

theorem grounded_of_points (hplace : files.Points c.cacheDir place) : Grounded c files root := by
  intro ns guild name hns _ hwalk
  rw [← hwalk, hplace.directory_of_up hns]
  exact Option.some_ne_none _

theorem Twin.others (h : Twin c guild root place files alone fs fs')
    (hcache : c.policy.snapshotDir = some c.cacheDir) (hm : Fits c m)
    (hnew : guild ∉ guilds.map Prod.fst) :
    Twin c guild root place files alone (fs.writeAll (guildsWrites c m fs clock guilds)) fs' := by
  induction guilds generalizing m fs clock with
  | nil => exact h
  | cons turn guilds ih =>
    obtain ⟨other, dir⟩ := turn
    rw [List.map_cons, List.mem_cons, not_or] at hnew
    rw [writeAll_guildsWrites_cons]
    exact ih (h.buildOther hcache hm (Ne.symm hnew.1)) (hm.buildGuild.evict other) hnew.2

/-- The turn of a guild among others comes to what it does alone. -/
theorem Twin.allTurns (h : Twin c guild root place files alone fs fs')
    (hsame : SameSources root files alone dir) (hcache : c.policy.snapshotDir = some c.cacheDir)
    (hm : Fits c m) (hm' : Fits c m') (hmem : (guild, dir) ∈ guilds)
    (hdistinct : (guilds.map Prod.fst).Nodup) (clock : Nat → Nat → Nat) (times : Nat → Nat) :
    (guild, (Build.buildGuild c m' fs' guild dir times).1) ∈ turns c m fs clock guilds ∧
      Twin c guild root place files alone (fs.writeAll (guildsWrites c m fs clock guilds))
        (Build.buildGuild c m' fs' guild dir times).2.2 := by
  induction guilds generalizing m fs clock with
  | nil => cases hmem
  | cons turn guilds ih =>
    obtain ⟨other, dir'⟩ := turn
    rw [List.map_cons, List.nodup_cons] at hdistinct
    rw [writeAll_guildsWrites_cons, turns]
    rcases List.mem_cons.1 hmem with hturn | hmem
    · cases hturn
      obtain ⟨hresult, htwin⟩ := h.buildGuild hsame hcache hm hm'
      exact ⟨hresult ▸ List.mem_cons_self .., htwin.others hcache (hm.buildGuild.evict guild)
        hdistinct.1⟩
    · have hne : other ≠ guild := by
        rintro rfl
        exact hdistinct.1 (List.mem_map.2 ⟨_, hmem, rfl⟩)
      obtain ⟨hresult, htwin⟩ := ih (h.buildOther hcache hm hne) (hm.buildGuild.evict other) hmem
        hdistinct.2 fun i => clock (i + 1)
      exact ⟨List.mem_cons_of_mem _ hresult, htwin⟩

/-- Nothing but a turn of a guild that succeeds changes what there is in the place of its
snapshot. -/
theorem spares_snapshot (hplace : files.Points c.cacheDir place) : Spares c guild fun fs =>
    files.Keeps fs ∧ (files.Rooted → fs.Rooted) ∧ fs.entryAt? (place ++ [guild.text ++ ".avc"]) =
      files.entryAt? (place ++ [guild.text ++ ".avc"]) where
  others fs path bytes other hne hfor := by
    rintro ⟨hkeeps, hrooted, hentry⟩
    have hfills := hfor.fills (hplace.keeps hkeeps) bytes
    exact ⟨hkeeps.trans hfills.keeps, fun h => hfills.rooted (hrooted h),
      (hfills.entryAt?_eq_of_own hne (.snapshot rfl)).trans hentry⟩
  module fs path bytes hmodule := by
    rintro ⟨hkeeps, hrooted, hentry⟩
    have hchanges := changes_replace fs path bytes
    refine ⟨hkeeps.trans hchanges.keeps, fun h => hchanges.rooted (hrooted h), ?_⟩
    obtain ⟨name, hslash, rfl⟩ := hmodule
    have hname : IsName (name ++ ".pm") := isName_append hslash (by decide) (by decide)
    have hpoints : fs.Points (c.moduleDir guild) (moduleRoot guild place) := by
      have hpoints := (hplace.keeps hkeeps).join (by decide : IsName "modules")
      have hpoints := hpoints.join guild.isName_text
      rwa [List.append_assoc] at hpoints
    -- The snapshot is not where the modules are.
    have hne (file : String) :
        place ++ [guild.text ++ ".avc"] ≠ moduleRoot guild place ++ [file] := by
      intro heq
      have hlength := congrArg List.length heq
      rw [moduleRoot] at hlength
      simp only [List.length_append, List.length_cons, List.length_nil] at hlength
      omega
    rw [Own.entryAt?_replace (.snapshot rfl) hpoints (List.prefix_refl _) hname
      (isName_append hname.noSlash (by decide) (by decide)) (fun _ => hne _) (hne _), hentry]
  failed fs bytes hfail := by
    rintro ⟨hkeeps, hrooted, hentry⟩
    have hchanges := changes_replace fs (join c.cacheDir (guild.text ++ ".avc")) bytes
    refine ⟨hkeeps.trans hchanges.keeps, fun h => hchanges.rooted (hrooted h), ?_⟩
    have hname := isName_snapshot guild
    have hne : place ++ [guild.text ++ ".avc"] ≠ place ++ [guild.text ++ ".avc" ++ ".tmp"] := by
      intro heq
      have hname := List.singleton_inj.1 (List.append_cancel_left heq)
      have hlast := getLast?_append guild.text ".avc" (by decide)
      rw [hname, getLast?_append _ _ (by decide)] at hlast
      cases hlast
    have hthere : place <+: moduleRoot guild place := List.prefix_append ..
    rw [Own.entryAt?_replace (.snapshot rfl) (hplace.keeps hkeeps) hthere hname
      (isName_append hname.noSlash (by decide) (by decide)) (fun hdone => absurd hdone hfail) hne,
      hentry]

theorem filter_eq_singleton {results : List Result} {r : Result}
    (hdistinct : (results.map Prod.fst).Nodup) (hr : r ∈ results) :
    results.filter (·.1 = r.1) = [r] := by
  induction results with
  | nil => cases hr
  | cons head results ih =>
    rw [List.map_cons, List.nodup_cons] at hdistinct
    rcases List.mem_cons.1 hr with rfl | hr
    · rw [List.filter_cons, if_pos (decide_eq_true rfl), List.filter_eq_nil_iff.2]
      intro other hother heq
      exact hdistinct.1 (List.mem_map.2 ⟨other, hother, of_decide_eq_true heq⟩)
    · have hne : ¬decide (head.1 = r.1) = true := by
        intro heq
        exact hdistinct.1 (List.mem_map.2 ⟨r, hr, (of_decide_eq_true heq).symm⟩)
      rw [List.filter_cons, if_neg hne, ih hdistinct.2 hr]

theorem snapshot?_eq (hworking : fs'.working = fs.working) (hrooted : fs.Rooted)
    (hrooted' : fs'.Rooted) (hplace : fs.Points c.cacheDir place)
    (hplace' : fs'.Points c.cacheDir place)
    (he : fs'.entryAt? (place ++ [guild.text ++ ".avc"]) =
      fs.entryAt? (place ++ [guild.text ++ ".avc"])) :
    snapshot? c fs' guild = snapshot? c fs guild :=
  hplace.toOption_read hworking hrooted hrooted' hplace' (isName_snapshot guild) he

/-- Every guild is either built or failed, in the order of their ids. As long as the path of the
cache directory goes up only from directories that there are, a guild that failed has the snapshot
that it had, and what comes of a guild is what comes of it when it is the only one. -/
theorem build_independent (c : BuildConfig) (files : Files) (clock : Nat → Nat → Nat)
    (guilds : List (Uuid × String)) (root : List String)
    (hcache : c.policy.snapshotDir = some c.cacheDir) (hproper : files.Proper)
    (hrooted : files.Rooted) (hguilds : guildDirs files c.sourceDir = .ok guilds)
    (hdistinct : (guilds.map Prod.fst).Nodup) (hroot : files.directory? c.sourceDir = .ok root) :
    ∃ report after, buildAll c files clock = (.ok report, after) ∧
      (guilds.map Prod.fst).Pairwise (fun g g' => g.toNat < g'.toNat) ∧
      (report.built.map GuildSummary.guild).Sublist (guilds.map Prod.fst) ∧
      (report.failed.map Prod.fst).Sublist (guilds.map Prod.fst) ∧
      ∀ guild dir, (guild, dir) ∈ guilds →
        (guild ∈ report.failed.map Prod.fst ↔ guild ∉ report.built.map GuildSummary.guild) ∧
        ∀ place, files.Points c.cacheDir place →
          (guild ∈ report.failed.map Prod.fst →
            snapshot? c after guild = snapshot? c files guild) ∧
          ∀ alone clock', Outside c files root → Alone c files alone root place guild dir →
            ∃ report' after', buildAll c alone clock' = (.ok report', after') ∧
              report'.built = report.built.filter (·.guild = guild) ∧
              report'.failed = report.failed.filter (·.1 = guild) ∧
              snapshot? c after' guild = snapshot? c after guild := by
  have hm : Fits c (.make c.policy) := .make c
  have hnamed : ∀ r ∈ turns c (.make c.policy) files clock guilds, r.Named :=
    fun r => named_of_mem_turns
  have hids : (turns c (.make c.policy) files clock guilds).map Prod.fst = guilds.map Prod.fst :=
    map_fst_turns guilds
  have hturns := hdistinct
  rw [← hids] at hturns
  refine ⟨_, _, buildAll_eq hguilds, pairwise_of_guildDirs hguilds hdistinct,
    hids ▸ sublist_summaries hnamed, hids ▸ sublist_failures _, fun guild dir hmem => ⟨?_, ?_⟩⟩
  · have hguild : guild ∈ (turns c (.make c.policy) files clock guilds).map Prod.fst :=
      hids ▸ List.mem_map.2 ⟨_, hmem, rfl⟩
    exact mem_failures_iff_notMem_summaries hnamed hturns hguild
  intro place hplace
  refine ⟨fun hfailed => ?_, fun alone clock' houtside halone => ?_⟩
  · -- No turn of the guild succeeds, since it has one only.
    have hnone (s : GuildSummary) :
        (guild, .ok s) ∉ turns c (.make c.policy) files clock guilds := by
      intro hok
      obtain ⟨⟨_, e⟩, hfail, rfl⟩ := List.mem_map.1 hfailed
      cases List.inj_on_of_nodup_map hturns hok (mem_failures.1 hfail) rfl
    obtain ⟨hkeeps, hrooted', hentry⟩ :=
      (spares_snapshot hplace).allTurns hcache hm ⟨.refl files, id, rfl⟩ hnone
    exact snapshot?_eq hkeeps.working hrooted (hrooted' hrooted) hplace (hplace.keeps hkeeps) hentry
  · have htwin : Twin c guild root place files alone files alone :=
      ⟨halone.alike hrooted hplace houtside, clear_of_outside houtside (grounded_of_points hplace),
        clear_of_outside (houtside.congr halone.working) (grounded_of_points halone.points),
        .refl root files, .refl root alone⟩
    have hsame := halone.sameSources hproper hroot hguilds hmem
    obtain ⟨hturn, hafter⟩ :=
      htwin.allTurns hsame hcache hm hm hmem hdistinct clock (clock' 0)
    have honly := filter_eq_singleton hturns hturn
    refine ⟨_, _, buildAll_eq halone.guilds, ?_, ?_, ?_⟩
    · dsimp only
      rw [filter_summaries hnamed, honly]
      rfl
    · dsimp only
      rw [filter_failures, honly]
      rfl
    · rw [writeAll_guildsWrites_cons]
      exact snapshot?_eq hafter.alike.working hafter.alike.rooted hafter.alike.rooted'
        hafter.alike.points hafter.alike.points' (hafter.alike.own _ (.snapshot rfl)).symm

/-- One guild without policy files, and one with a policy file that does not compile and the
snapshot of an earlier build. -/
def mixed : Files where
  entries := .ofList [
    (["src"], .directory),
    (["src", (1 : Uuid).text], .directory),
    (["src", (2 : Uuid).text], .directory),
    (["src", (2 : Uuid).text, "m.policy"], .file <| Text.encodeUtf8 "broken".toList),
    (["cache"], .directory),
    (["cache", (2 : Uuid).text ++ ".avc"], .file [7])]
  working := []

/-- The same after the turn of the first guild. -/
def mixedLater : Files :=
  mixed.put ["cache", (1 : Uuid).text ++ ".avc"] (.file (encodeGuild .blank))

theorem guildDirs_mixed : guildDirs mixed "src" =
    .ok [(1, join "src" (1 : Uuid).text), (2, join "src" (2 : Uuid).text)] := by
  have hplace : mixed.directory? "src" = .ok ["src"] := by decide
  have hlist : mixed.list "src" =
      .ok [((1 : Uuid).text, .directory), ((2 : Uuid).text, .directory)] :=
    list_eq hplace (by decide) (by decide)
  exact guildDirs_eq hlist (by decide) (by decide)

theorem turns_mixed (clock : Nat → Nat → Nat) : ∃ e,
    turns (.make "src" "cache") (.make (BuildConfig.make "src" "cache").policy) mixed clock
      [(1, join "src" (1 : Uuid).text), (2, join "src" (2 : Uuid).text)] =
      [(1, .ok ⟨1, [], 0⟩), (2, .error e)] := by
  have hnone : policySources mixed (join "src" (1 : Uuid).text) = .ok [] := by
    have hplace : mixed.directory? (join "src" (1 : Uuid).text) = .ok ["src", (1 : Uuid).text] := by
      decide
    exact policySources_eq hplace (by decide) .nil
  have hfinished : finished (.make "src" "cache") 1 .empty mixed =
      (.ok ⟨1, [], 0⟩, mixedLater) := by decide
  have hone : policySources mixedLater (join "src" (2 : Uuid).text) =
      .ok [join (join "src" (2 : Uuid).text) "m.policy"] := by
    have hplace : mixedLater.directory? (join "src" (2 : Uuid).text) =
      .ok ["src", (2 : Uuid).text] := by decide
    exact policySources_eq hplace (.refl _) (List.pairwise_singleton ..)
  obtain ⟨e, he⟩ : ∃ e, compileFile .platform mixedLater
      (join (join "src" (2 : Uuid).text) "m.policy") = .error e := by
    have hfail : (compileFile .platform mixedLater
        (join (join "src" (2 : Uuid).text) "m.policy")).toOption = none := by decide +kernel
    cases hfile : compileFile .platform mixedLater _ with
    | error e => exact ⟨e, rfl⟩
    | ok module =>
      rw [hfile] at hfail
      cases hfail
  obtain ⟨m, hm, hfirst⟩ := turns_cons_of_nil (.make (.make "src" "cache")) (snapshotDir_make _ _)
    hnone
  obtain ⟨m', -, hsecond⟩ := turns_cons_of_error hm hone he
  refine ⟨e, ?_⟩
  rw [hfirst, hfinished]
  dsimp only
  rw [hsecond, turns]

theorem alone_mixed : Alone (.make "src" "cache") mixed
    (mixed.drop ["src", (1 : Uuid).text].isPrefixOf) ["src"] ["cache"] 2
    (join "src" (2 : Uuid).text) where
  working := rfl
  proper := by decide
  rooted := by decide
  guilds := by
    have hplace : (mixed.drop ["src", (1 : Uuid).text].isPrefixOf).directory? "src" =
        .ok ["src"] := by decide
    have hlist : (mixed.drop ["src", (1 : Uuid).text].isPrefixOf).list "src" =
        .ok [((2 : Uuid).text, .directory)] :=
      list_eq hplace (by decide) (List.pairwise_singleton ..)
    exact guildDirs_eq hlist (by decide) (List.pairwise_singleton ..)
  points := ⟨["cache"], [], ["cache"], by decide, by decide, nofun, rfl⟩
  entries p h := get?_drop (h _ 1 (Uuid.parse?_text 1) (by decide))

theorem build_independent_mixed : ∃ report after report' after',
    buildAll (.make "src" "cache") mixed slowly = (.ok report, after) ∧
    report.built.map GuildSummary.guild = [1] ∧ report.failed.map Prod.fst = [2] ∧
    snapshot? (.make "src" "cache") after 2 = some [7] ∧
    buildAll (.make "src" "cache") (mixed.drop ["src", (1 : Uuid).text].isPrefixOf) slowly =
      (.ok report', after') ∧
    report'.built = [] ∧ report'.failed = report.failed ∧
    snapshot? (.make "src" "cache") after' 2 = some [7] := by
  have hplace : mixed.Points "cache" ["cache"] :=
    ⟨["cache"], [], ["cache"], by decide, by decide, nofun, rfl⟩
  obtain ⟨report, after, hrun, -, -, -, hguilds⟩ := build_independent (.make "src" "cache") mixed
    slowly _ ["src"] (snapshotDir_make _ _) (by decide) (by decide) guildDirs_mixed (by decide)
    (by decide)
  obtain ⟨-, hguild⟩ := hguilds 2 _ (List.mem_cons_of_mem _ (List.mem_singleton_self _))
  obtain ⟨hkept, hsame⟩ := hguild ["cache"] hplace
  obtain ⟨report', after', hrun', hbuilt', hfailed', hsnapshot⟩ :=
    hsame _ slowly (outside_of_not_above (by decide)) alone_mixed
  obtain ⟨e, hturns⟩ := turns_mixed slowly
  obtain rfl : report = ⟨[⟨1, [], 0⟩], [(2, e)]⟩ := by
    have hreport := congrArg Prod.fst ((buildAll_eq guildDirs_mixed).symm.trans hrun)
    rw [hturns] at hreport
    exact (Except.ok.inj hreport).symm
  have hold : snapshot? (.make "src" "cache") mixed 2 = some [7] := by decide
  have hafter := (hkept (List.mem_singleton_self 2)).trans hold
  exact ⟨_, after, report', after', hrun, rfl, rfl, hafter, hrun', hbuilt', hfailed',
    hsnapshot.trans hafter⟩

/-- The cache directory is to be below a file, by a path through a directory that is missing. -/
def throughMissing : BuildConfig := .make "src" "a/b/../c/d"

/-- The second guild alone. -/
def bareAlone : Files := bare.drop ["src", (1 : Uuid).text].isPrefixOf

theorem guildDirs_bareAlone : guildDirs bareAlone "src" =
    .ok [(2, join "src" (2 : Uuid).text)] := by
  have hplace : bareAlone.directory? "src" = .ok ["src"] := by decide
  have hlist : bareAlone.list "src" = .ok [((2 : Uuid).text, .directory)] :=
    list_eq hplace (by decide) (List.pairwise_singleton ..)
  exact guildDirs_eq hlist (by decide) (List.pairwise_singleton ..)

theorem turns_bareAlone (hcache : c.policy.snapshotDir = some c.cacheDir) :
    turns c (.make c.policy) bareAlone clock [(2, join "src" (2 : Uuid).text)] =
      [(2, (finished c 2 .empty bareAlone).1)] := by
  have hplace : bareAlone.directory? (join "src" (2 : Uuid).text) =
      .ok ["src", (2 : Uuid).text] := by decide
  have hsources := policySources_eq hplace (by decide) .nil
  obtain ⟨m, -, hturns⟩ := turns_cons_of_nil (.make c) hcache hsources
  rw [hturns, turns]

theorem turns_throughMissing :
    turns throughMissing (.make throughMissing.policy) bare clock
      [(1, join "src" (1 : Uuid).text), (2, join "src" (2 : Uuid).text)] =
      [(1, .error (.file "a/b/../c/d" .alreadyExists)),
        (2, .error (.file "a/b/../c/d" .notDirectory))] := by
  have hfinished : finished throughMissing 1 .empty bare =
      (.error (.file "a/b/../c/d" .alreadyExists), bare.put ["a", "b"] .directory) := by
    decide
  have hfinished' : (finished throughMissing 2 .empty (bare.put ["a", "b"] .directory)).1 =
      .error (.file "a/b/../c/d" .notDirectory) := by decide
  have hplace : (bare.put ["a", "b"] .directory).directory? (join "src" (2 : Uuid).text) =
      .ok ["src", (2 : Uuid).text] := by decide
  have hsources := policySources_eq hplace (by decide) .nil
  obtain ⟨m, hm, hfirst⟩ := turns_cons_of_nil (.make throughMissing) (snapshotDir_make _ _)
    policySources_bare.1
  obtain ⟨m', -, hsecond⟩ := turns_cons_of_nil hm (snapshotDir_make _ _) hsources
  rw [hfirst, hfinished]
  dsimp only
  rw [hsecond, hfinished', turns]

/-- Where the path of the cache directory goes up from a directory that is missing, a guild may fail
that is built alone, and one that fails may do so for another reason. -/
theorem build_dependent :
    walk (bare.start throughSources.cacheDir) (names throughSources.cacheDir) = ["cache"] ∧
    (buildAll throughSources bare).1 = .ok ⟨[⟨1, [], 0⟩],
      [(2, .file (join (join "src" (2 : Uuid).text) "x.policy") .isDirectory)]⟩ ∧
    (buildAll throughSources bareAlone).1 = .ok ⟨[⟨2, [], 0⟩], []⟩ ∧
    walk (bare.start throughMissing.cacheDir) (names throughMissing.cacheDir) = ["a", "c", "d"] ∧
    (buildAll throughMissing bare).1 = .ok ⟨[], [(1, .file "a/b/../c/d" .alreadyExists),
      (2, .file "a/b/../c/d" .notDirectory)]⟩ ∧
    (buildAll throughMissing bareAlone).1 =
      .ok ⟨[], [(2, .file "a/b/../c/d" .alreadyExists)]⟩ := by
  have hbuilt : (finished throughSources 2 .empty bareAlone).1 = .ok ⟨2, [], 0⟩ := by
    decide +kernel
  have hfailed : (finished throughMissing 2 .empty bareAlone).1 =
      .error (.file "a/b/../c/d" .alreadyExists) := by decide
  refine ⟨by decide, ?_, ?_, by decide, ?_, ?_⟩
  · rw [buildAll_eq guildDirs_bare, turns_throughSources]
    rfl
  · rw [buildAll_eq guildDirs_bareAlone, turns_bareAlone (c := throughSources) rfl, hbuilt]
    rfl
  · rw [buildAll_eq guildDirs_bare, turns_throughMissing]
    rfl
  · rw [buildAll_eq guildDirs_bareAlone, turns_bareAlone (c := throughMissing) rfl, hfailed]
    rfl

end GuildPolicy.Build
