import GuildPolicy.Proofs.Build.Frame
import GuildPolicy.Proofs.Guild.Storage
import GuildPolicy.Proofs.Module.Validity
import GuildPolicy.Proofs.Snapshot.RoundTrip

namespace GuildPolicy

open GuildPolicy.Path Files

theorem readModuleFile_of_read {files : Files} {path : String} {m : PolicyModule}
    (hread : files.read path = .ok (encodeModule m))
    (hsize : (encodeModule m).length < UInt64.size) :
    readModuleFile files path =
      match m.validate with
      | .ok () => .ok m
      | .error e => .error (.invalidFile path e) := by
  rw [readModuleFile, hread]
  dsimp only
  rw [decodeModule_encodeModule hsize]
  cases m.validate with
  | ok => rfl
  | error e => rfl

namespace Build

variable {c : BuildConfig} {guild : Uuid} {m : Manager} {files files' : Files} {ms : ModuleSet}
variable {source : String} {sources : List String} {now : Nat} {times : Nat → Nat}

theorem compileFile_eq_ok_iff {module : PolicyModule} :
    compileFile .platform files source = .ok module ↔
      ∃ text, files.readText source = .ok text ∧ compile .platform text source = .ok module := by
  rw [compileFile]
  constructor
  · intro h
    split at h
    · cases h
    next text htext =>
    split at h
    · next hcompile =>
      cases h
      exact ⟨text, htext, hcompile⟩
    · cases h
  · rintro ⟨text, htext, hcompile⟩
    rw [htext]
    dsimp only
    rw [hcompile]

theorem Compiles.unique {module module' : PolicyModule} (h : Compiles files source module)
    (h' : Compiles files source module') : module = module' := by
  obtain ⟨text, htext, hcompiled⟩ := h.compiled
  obtain ⟨text', htext', hcompiled'⟩ := h'.compiled
  obtain rfl : text = text' := Except.ok.inj (htext.symm.trans htext')
  exact Except.ok.inj (hcompiled.symm.trans hcompiled')

theorem Makes.unique {dir : String} {ms' : ModuleSet} {v v' : AccessVector}
    (h : Makes files dir ms v) (h' : Makes files dir ms' v') : ms = ms' ∧ v = v' := by
  obtain ⟨sources, modules, hsources, hmodules, rfl, hb⟩ := makes_iff.1 h
  obtain ⟨sources', modules', hsources', hmodules', rfl, hb'⟩ := makes_iff.1 h'
  obtain rfl : sources = sources' := Except.ok.inj (hsources.symm.trans hsources')
  obtain rfl : modules = modules' :=
    List.right_unique_forall₂' (fun _ _ _ h h' => h.unique h') hmodules hmodules'
  exact ⟨rfl, Except.ok.inj (hb.symm.trans hb')⟩

theorem compiles_congr {module : PolicyModule}
    (h : files'.readText source = files.readText source) :
    Compiles files' source module ↔ Compiles files source module := by
  constructor
  · rintro ⟨hcompiled, hnamed, hstored⟩
    exact ⟨h ▸ hcompiled, hnamed, hstored⟩
  · rintro ⟨hcompiled, hnamed, hstored⟩
    exact ⟨h ▸ hcompiled, hnamed, hstored⟩

/-- A guild whose modules are resident and were not merged since it was reset. -/
structure Loaded (c : BuildConfig) (m : Manager) (guild : Uuid) (ms : ModuleSet) : Prop where
  fits : Fits c m
  resident : m.guilds.get? guild = some ⟨ms, none⟩

theorem Fits.loaded_reset (h : Fits c m) (now : Nat) (guild : Uuid) :
    Loaded c (m.reset now guild) guild .empty :=
  ⟨h.reset now guild, Table.get?_insert_self ..⟩

theorem Loaded.load {module : PolicyModule} (h : Loaded c m guild ms) (files : Files)
    (hvalid : module.validate = .ok ()) : ∃ m', m.load now files guild module = (.ok (), m') ∧
      Loaded c m' guild (ms.insert module.name module) := by
  have hload : m.load now files guild module = (.ok (), { m with
      guilds := m.guilds.insert guild ⟨ms.insert module.name module, none⟩ }) := by
    rw [Manager.load, hvalid]
    dsimp only
    rw [Manager.resident, Manager.restore_of_resident h.resident]
  refine ⟨_, hload, ?_, Table.get?_insert_self ..⟩
  have hmoves := m.load_moves .blank now files guild module
  rw [hload] at hmoves
  exact h.fits.moves hmoves

theorem addSource_eq {module : PolicyModule} {name : String}
    (hfile : compileFile .platform files source = .ok module)
    (hname : snapshotFileName module.name = .ok name)
    (hw : files.Writable (sourceWrites c guild files source)) : ∃ path files',
      files'.read path = .ok (encodeModule module) ∧
      (encodeModule module).length < UInt64.size ∧
      addSource c guild m files now source =
        ((m.loadFile now files' guild path).1, (m.loadFile now files' guild path).2, files') := by
  rw [sourceWrites, hfile] at hw
  dsimp only at hw
  rw [hname] at hw
  obtain ⟨hwritten, hsize, -⟩ := hw
  have hstore : storeModule files (join (c.moduleDir guild) name) module =
      ((files.replace (join (c.moduleDir guild) name) (encodeModule module)).1, .ok ()) :=
    Prod.ext rfl hwritten
  refine ⟨_, _, Files.read_replace hstore, hsize, ?_⟩
  rw [addSource, hfile]
  dsimp only
  rw [hname]
  dsimp only
  rw [hstore]

/-- A policy file that compiles is loaded as it was compiled; any other ends the guild's turn. -/
theorem Loaded.addSource_cases (h : Loaded c m guild ms)
    (hw : files.Writable (sourceWrites c guild files source)) :
    (∃ module, Compiles files source module ∧ ∃ m' files',
      addSource c guild m files now source = (.ok (), m', files') ∧
      Loaded c m' guild (ms.insert module.name module)) ∨
    ((∀ module, ¬Compiles files source module) ∧ ∃ e m' files',
      addSource c guild m files now source = (.error e, m', files')) := by
  cases hfile : compileFile .platform files source with
  | error e =>
    refine .inr ⟨fun module hcompiles => ?_, e, m, files, by rw [addSource, hfile]⟩
    rw [compileFile_eq_ok_iff.2 hcompiles.compiled] at hfile
    cases hfile
  | ok module =>
    have hunique {module' : PolicyModule} (h' : Compiles files source module') :
        module' = module :=
      Except.ok.inj ((compileFile_eq_ok_iff.2 h'.compiled).symm.trans hfile)
    cases hname : snapshotFileName module.name with
    | error e =>
      refine .inr ⟨fun module' hcompiles => ?_, e, m, files, ?_⟩
      · obtain ⟨name, hstored⟩ := hcompiles.stored
        rw [hunique hcompiles, hname] at hstored
        cases hstored
      · rw [addSource, hfile]
        dsimp only
        rw [hname]
    | ok name =>
      obtain ⟨path, files', hread, hsize, hadd⟩ := addSource_eq hfile hname hw
      rw [hadd, Manager.loadFile, readModuleFile_of_read hread hsize]
      obtain ⟨text, htext, hcompile⟩ := compileFile_eq_ok_iff.1 hfile
      have hvalid := PolicyModule.validate_of_compile hcompile
      cases hv : module.validate with
      | ok =>
        obtain ⟨m', hload, hloaded⟩ := h.load files' hv
        refine .inl ⟨module, ⟨⟨text, htext, hcompile⟩, hvalid.1 hv, name, hname⟩, m', files', ?_,
          hloaded⟩
        dsimp only
        rw [hload]
      | error e =>
        refine .inr ⟨fun module' hcompiles => ?_, _, m, files', rfl⟩
        have hok := hvalid.2 (hunique hcompiles ▸ hcompiles.named)
        rw [hv] at hok
        cases hok

/-- The policy files of a guild are loaded as far as they compile. That they are taken from files
which others were written to makes no difference. -/
theorem Loaded.addSources_cases {root : List String} {initial : Files} (h : Loaded c m guild ms)
    (hagrees : Agrees root initial files)
    (hsame : ∀ fs, Agrees root initial fs →
      ∀ source ∈ sources, fs.readText source = initial.readText source)
    (hclear : Clear c initial root)
    (hw : files.Writable (sourcesWrites c guild m files times sources)) :
    (∃ modules, List.Forall₂ (Compiles initial) sources modules ∧ ∃ m' files',
      addSources c guild m files times sources = (.ok (), m', files') ∧
      Loaded c m' guild (modules.foldl (fun ms m => ms.insert m.name m) ms)) ∨
    ((∀ modules, ¬List.Forall₂ (Compiles initial) sources modules) ∧ ∃ e m' files',
      addSources c guild m files times sources = (.error e, m', files')) := by
  induction sources generalizing m files ms times with
  | nil => exact .inl ⟨[], .nil, m, files, rfl, h⟩
  | cons source rest ih =>
    obtain ⟨hsource, hrest⟩ := writable_append_iff.1 hw
    have hread := hsame files hagrees source (List.mem_cons_self ..)
    rw [addSources]
    rcases h.addSource_cases hsource with
      ⟨module, hcompiles, m', files', hadd, hloaded⟩ | ⟨hnone, e, m', files', hadd⟩
    · have hwritten : files.writeAll (sourceWrites c guild files source) = files' := by
        rw [← files_addSource, hadd]
      have hagrees' : Agrees root initial files' :=
        hwritten ▸ agrees_writeAll hagrees
          (fun w hw => .inl (isModule_of_mem_sourceWrites hw)) hclear
      rw [hwritten, hadd] at hrest
      rw [hadd]
      have hsame' (fs : Files) (hfs : Agrees root initial fs) (s : String) (hs : s ∈ rest) :=
        hsame fs hfs s (List.mem_cons_of_mem _ hs)
      rcases ih hloaded hagrees' hsame' hrest with
        ⟨modules, hmodules, hadds⟩ | ⟨hnone, hadds⟩
      · exact .inl ⟨module :: modules, .cons ((compiles_congr hread).1 hcompiles) hmodules, hadds⟩
      · refine .inr ⟨fun modules hmodules => ?_, hadds⟩
        cases hmodules with
        | cons _ hmodules => exact hnone _ hmodules
    · rw [hadd]
      refine .inr ⟨fun modules hmodules => ?_, e, m', files', rfl⟩
      cases hmodules with
      | cons hcompiles _ => exact hnone _ ((compiles_congr hread).2 hcompiles)

/-- A file holds the snapshot of a guild. -/
def Stored (c : BuildConfig) (files : Files) (guild : Uuid) (s : GuildSnapshot) : Prop :=
  ∃ bytes, files.read (join c.cacheDir (guild.text ++ ".avc")) = .ok bytes ∧
    decodeGuild bytes = .ok s

/-- What is stored after modules were merged is what they were merged into, even if the cache has
lost it by then. -/
theorem toStore_of_merged (now later : Nat) (state : GuildState) (hms : state.merged = some ms)
    {v : AccessVector} (hb : ms.build = .ok v) :
    (Manager.toStore (({ m with guilds := m.guilds.insert guild state }).publish now guild v) later
      guild).1 = ⟨v, state.modules⟩ := by
  generalize hmerged : Manager.publish { m with guilds := m.guilds.insert guild state } now guild
    v = m'
  have hheld : m'.held guild = some ⟨m.nextSerial, v⟩ := hmerged ▸ held_publish_self
  have hresident : m'.guilds.get? guild = some state :=
    hmerged ▸ Table.get?_insert_self m.guilds guild state
  have hvector : (m'.rebuild later guild state).1 = some v := by
    rcases Manager.rebuild_cases m' later guild hms with ⟨p, hp, he⟩ | he
    · rw [hheld] at hp
      cases hp
      exact he
    · rw [he, hb]
      rfl
  rw [Manager.toStore, hresident]
  dsimp only
  rw [hvector]
  rfl

theorem guilds_toStore (now : Nat) : (m.toStore now guild).2.guilds = m.guilds := by
  rw [Manager.toStore]
  split
  · rfl
  · exact Manager.rebuild_guilds

theorem Loaded.compileAll_eq (h : Loaded c m guild ms) {v : AccessVector}
    (hb : ms.build = .ok v) : m.compileAll now files guild =
      (.ok v, ({ m with guilds := m.guilds.insert guild ⟨ms, some ms⟩ }).publish now guild v) := by
  have hvalid : v.Valid := (h.fits.valid.state _ _ h.resident).modules.build hb
  rw [Manager.compileAll, Manager.resident, Manager.restore_of_resident h.resident]
  dsimp only
  rw [hb]
  dsimp only
  rw [(AccessVector.validate_eq_ok_iff v).2 hvalid]

theorem Loaded.merged (h : Loaded c m guild ms) (hcache : c.policy.snapshotDir = some c.cacheDir)
    {v : AccessVector} (hb : ms.build = .ok v) (now later : Nat) (files : Files) :
    ∃ merged, m.compileAll now files guild = (.ok v, merged) ∧
      merged.config.snapshotPath? guild = some (join c.cacheDir (guild.text ++ ".avc")) ∧
      (merged.toStore later guild).1 = ⟨v, ms⟩ ∧
      (merged.toStore later guild).2.guilds.get? guild = some ⟨ms, some ms⟩ := by
  refine ⟨_, h.compileAll_eq hb, ?_, toStore_of_merged now later ⟨ms, some ms⟩ rfl hb, ?_⟩
  · change m.config.snapshotPath? guild = _
    rw [h.fits.config, Config.snapshotPath?, hcache]
    rfl
  · rw [guilds_toStore]
    exact Table.get?_insert_self ..

/-- What comes of merging and storing modules. -/
def finished (c : BuildConfig) (guild : Uuid) (ms : ModuleSet) (files : Files) :
    Except PolicyError GuildSummary × Files :=
  match ms.build with
  | .error e => (.error e, files)
  | .ok v =>
    match files.replace (join c.cacheDir (guild.text ++ ".avc")) (encodeGuild ⟨v, ms⟩) with
    | (files, .error e) => (.error e, files)
    | (files, .ok ()) => (.ok ⟨guild, ms.keys, v.names.size⟩, files)

theorem replace_of_finished {summary : GuildSummary} {files' : Files}
    (h : finished c guild ms files = (.ok summary, files')) : ∃ v, ms.build = .ok v ∧
      files.replace (join c.cacheDir (guild.text ++ ".avc")) (encodeGuild ⟨v, ms⟩) =
        (files', .ok ()) ∧ summary = ⟨guild, ms.keys, v.names.size⟩ := by
  rw [finished] at h
  cases hb : ms.build with
  | error e =>
    rw [hb] at h
    cases h
  | ok v =>
  rw [hb] at h
  dsimp only at h
  cases hreplace : files.replace (join c.cacheDir (guild.text ++ ".avc"))
    (encodeGuild ⟨v, ms⟩) with
  | mk written result =>
  rw [hreplace] at h
  cases result with
  | error e => cases h
  | ok =>
    cases h
    exact ⟨v, rfl, hreplace, rfl⟩

/-- The modules that are loaded are merged and stored, whatever else a manager holds and whatever
time has passed. -/
theorem Loaded.finishGuild_eq (h : Loaded c m guild ms)
    (hcache : c.policy.snapshotDir = some c.cacheDir) :
    ∃ m', finishGuild guild m files times =
      ((finished c guild ms files).1, m', (finished c guild ms files).2) := by
  rw [finished]
  cases hb : ms.build with
  | error e =>
    refine ⟨m, ?_⟩
    rw [finishGuild, Manager.compileAll, Manager.resident, Manager.restore_of_resident h.resident]
    dsimp only
    rw [hb]
  | ok v =>
    obtain ⟨merged, hcompile, hpath, hsnapshot, hresident⟩ :=
      h.merged hcache hb (times 0) (times 1) files
    rw [finishGuild, hcompile]
    dsimp only
    rw [Manager.storeGuild_eq hpath, hsnapshot]
    cases files.replace (join c.cacheDir (guild.text ++ ".avc")) (encodeGuild ⟨v, ms⟩) with
    | mk files' result =>
      cases result with
      | error e => exact ⟨_, rfl⟩
      | ok =>
        dsimp only [Functor.map, Except.map]
        rw [Manager.modulesOf_of_resident hresident]
        exact ⟨_, rfl⟩

theorem Loaded.finishWrites_eq (h : Loaded c m guild ms)
    (hcache : c.policy.snapshotDir = some c.cacheDir) {v : AccessVector} (hb : ms.build = .ok v) :
    finishWrites guild m files times =
      [⟨join c.cacheDir (guild.text ++ ".avc"), encodeGuild ⟨v, ms⟩⟩] := by
  obtain ⟨merged, hcompile, hpath, hsnapshot, -⟩ := h.merged hcache hb (times 0) (times 1) files
  rw [finishWrites, hcompile]
  dsimp only
  rw [storeWrites, hpath, hsnapshot]

theorem Loaded.finishGuild_cases (h : Loaded c m guild ms)
    (hcache : c.policy.snapshotDir = some c.cacheDir)
    (hw : files.Writable (finishWrites guild m files times)) :
    (∃ v, ms.build = .ok v ∧ ∃ m' files',
      finishGuild guild m files times = (.ok ⟨guild, ms.keys, v.names.size⟩, m', files') ∧
      Stored c files' guild ⟨v, ms⟩) ∨
    ((∀ v, ms.build ≠ .ok v) ∧ ∃ e m' files',
      finishGuild guild m files times = (.error e, m', files')) := by
  have hvalid : ms.Valid := (h.fits.valid.state _ _ h.resident).modules
  obtain ⟨m', hfinish⟩ : ∃ m', finishGuild guild m files times = _ := h.finishGuild_eq hcache
  rw [hfinish, finished]
  cases hb : ms.build with
  | error e => exact .inr ⟨nofun, e, m', files, rfl⟩
  | ok v =>
    rw [h.finishWrites_eq hcache hb] at hw
    obtain ⟨hwritten, hsize, -⟩ := hw
    dsimp only at hwritten hsize ⊢
    cases hreplace : files.replace (join c.cacheDir (guild.text ++ ".avc"))
      (encodeGuild ⟨v, ms⟩) with
    | mk files' result =>
    rw [hreplace] at hwritten
    obtain rfl : result = .ok () := hwritten
    have hdecode : decodeGuild (encodeGuild ⟨v, ms⟩) = .ok ⟨v, ms⟩ := by
      rw [decodeGuild_encodeGuild hsize,
        GuildSnapshot.validate_eq_ok_iff.2 ⟨hvalid.build hb, hvalid⟩]
      rfl
    exact .inl ⟨v, rfl, m', files', rfl, _, read_replace hreplace, hdecode⟩

/-- The snapshot of a guild is stored if its policy files make something, and then says what they
make. -/
theorem buildGuild_cases {root : List String} {initial : Files} {dir : String}
    (h : Fits c m) (hcache : c.policy.snapshotDir = some c.cacheDir) (hproper : initial.Proper)
    (hdir : initial.GuildDir c.sourceDir root dir)
    (hclear : Clear c initial root) (hagrees : Agrees root initial files)
    (hw : files.Writable (guildWrites c guild m files dir times)) :
    (∃ ms v, Makes initial dir ms v ∧ ∃ m' files',
      buildGuild c m files guild dir times = (.ok ⟨guild, ms.keys, v.names.size⟩, m', files') ∧
      Stored c files' guild ⟨v, ms⟩) ∨
    ((∀ ms v, ¬Makes initial dir ms v) ∧ ∃ e m' files',
      buildGuild c m files guild dir times = (.error e, m', files')) := by
  have hpolicies := hagrees.policySources_eq hdir
  rw [guildWrites, hpolicies] at hw
  cases hsources : policySources initial dir with
  | error e =>
    refine .inr ⟨fun ms v hmakes => ?_, e, m.reset (times 0) guild, files, ?_⟩
    · obtain ⟨sources, modules, hsources', -⟩ := makes_iff.1 hmakes
      rw [hsources] at hsources'
      cases hsources'
    · rw [buildGuild, hpolicies, hsources]
  | ok sources =>
    rw [hsources] at hw
    obtain ⟨hadds, hfinish⟩ := writable_append_iff.1 hw
    have hsame (fs : Files) (hfs : Agrees root initial fs) (source : String)
        (hsource : source ∈ sources) : fs.readText source = initial.readText source :=
      hfs.readText_eq hproper hdir hsources hsource
    rw [buildGuild, hpolicies, hsources]
    dsimp only
    rcases (h.loaded_reset (times 0) guild).addSources_cases hagrees hsame hclear hadds with
      ⟨modules, hmodules, m', files', hadd, hloaded⟩ | ⟨hnone, e, m', files', hadd⟩
    · have hwritten : files.writeAll (sourcesWrites c guild (m.reset (times 0) guild) files
          (fun k => times (k + 1)) sources) = files' := by
        rw [← files_addSources, hadd]
      rw [hwritten, hadd] at hfinish
      rw [hadd]
      rcases hloaded.finishGuild_cases hcache hfinish with
        ⟨v, hb, hfinished⟩ | ⟨hnot, hfailed⟩
      · exact .inl ⟨_, v, makes_iff.2 ⟨sources, modules, hsources, hmodules, rfl, hb⟩, hfinished⟩
      · refine .inr ⟨fun ms v hmakes => ?_, hfailed⟩
        obtain ⟨sources', modules', hsources', hmodules', rfl, hb⟩ := makes_iff.1 hmakes
        obtain rfl : sources = sources' := Except.ok.inj (hsources.symm.trans hsources')
        obtain rfl : modules = modules' :=
          List.right_unique_forall₂' (fun _ _ _ h h' => h.unique h') hmodules hmodules'
        exact hnot v hb
    · rw [hadd]
      refine .inr ⟨fun ms v hmakes => ?_, e, m', files', rfl⟩
      obtain ⟨sources', modules, hsources', hmodules, -⟩ := makes_iff.1 hmakes
      obtain rfl : sources = sources' := Except.ok.inj (hsources.symm.trans hsources')
      exact hnone modules hmodules

end Build

end GuildPolicy
