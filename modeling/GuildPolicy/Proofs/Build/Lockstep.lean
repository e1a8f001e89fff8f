import GuildPolicy.Proofs.Build.Footprint
import GuildPolicy.Proofs.Build.Turn

namespace GuildPolicy.Build

open GuildPolicy.Path Files

variable {c : BuildConfig} {guild other : Uuid} {m m' : Manager} {ms : ModuleSet}
variable {files alone fs fs' : Files} {root place : List String} {path source dir : String}
variable {sources : List String} {now now' : Nat} {times times' : Nat → Nat}

/-- Two collections that come to the same for a guild, on top of the policy files that the two
builds began with. -/
structure Twin (c : BuildConfig) (guild : Uuid) (root place : List String)
    (files alone fs fs' : Files) : Prop where
  alike : Alike c guild place fs fs'
  clear : Clear c files root
  clear' : Clear c alone root
  agrees : Agrees root files fs
  agrees' : Agrees root alone fs'

namespace Twin

variable {ws : List Write}

theorem replace (h : Twin c guild root place files alone fs fs') (hfor : IsFor c guild path)
    (bytes : List UInt8) : (fs.replace path bytes).2 = (fs'.replace path bytes).2 ∧
      Twin c guild root place files alone (fs.replace path bytes).1 (fs'.replace path bytes).1 := by
  obtain ⟨hresult, halike⟩ := h.alike.replace hfor bytes
  exact ⟨hresult, halike, h.clear, h.clear', agrees_replace h.agrees hfor h.clear,
    agrees_replace h.agrees' hfor h.clear'⟩

theorem writeAll (h : Twin c guild root place files alone fs fs')
    (hws : ∀ w ∈ ws, IsFor c other w.path) (hne : other ≠ guild) :
    Twin c guild root place files alone (fs.writeAll ws) fs' := by
  induction ws generalizing fs with
  | nil => exact h
  | cons w ws ih =>
    obtain ⟨hw, hws⟩ := List.forall_mem_cons.1 hws
    have halike := h.alike.fill (hw.fills h.alike.points w.bytes) hne
    exact ih ⟨halike, h.clear, h.clear', agrees_replace h.agrees hw h.clear, h.agrees'⟩ hws

end Twin

/-- Two steps of a turn that came to the same: both failed for the same reason, or both left the
same modules loaded. -/
inductive Joint (c : BuildConfig) (guild : Uuid) (root place : List String) (files alone : Files) :
    Except PolicyError Unit × Manager × Files → Except PolicyError Unit × Manager × Files → Prop
  | failed {fs fs' : Files} (e : PolicyError) (m m' : Manager)
    (h : Twin c guild root place files alone fs fs') :
    Joint c guild root place files alone (.error e, m, fs) (.error e, m', fs')
  | added {fs fs' : Files} {m m' : Manager} {ms : ModuleSet}
    (h : Twin c guild root place files alone fs fs') (hm : Loaded c m guild ms)
    (hm' : Loaded c m' guild ms) :
    Joint c guild root place files alone (.ok (), m, fs) (.ok (), m', fs')

theorem Loaded.loadFile_cases (h : Loaded c m guild ms) (h' : Loaded c m' guild ms)
    (hread : fs.read path = fs'.read path) :
    (∃ e, m.loadFile now fs guild path = (.error e, m) ∧
      m'.loadFile now' fs' guild path = (.error e, m')) ∨
    ∃ module made made', m.loadFile now fs guild path = (.ok (), made) ∧
      m'.loadFile now' fs' guild path = (.ok (), made') ∧
      Loaded c made guild (ms.insert module.name module) ∧
      Loaded c made' guild (ms.insert module.name module) := by
  have hfile : readModuleFile fs path = readModuleFile fs' path := by
    rw [readModuleFile, readModuleFile, hread]
  rw [Manager.loadFile, Manager.loadFile, hfile]
  cases readModuleFile fs' path with
  | error e => exact .inl ⟨e, rfl, rfl⟩
  | ok module =>
    dsimp only
    cases hvalid : module.validate with
    | error e =>
      rw [Manager.load, Manager.load, hvalid]
      exact .inl ⟨e, rfl, rfl⟩
    | ok =>
      obtain ⟨made, hload, hmade⟩ := h.load fs hvalid
      obtain ⟨made', hload', hmade'⟩ := h'.load fs' hvalid
      rw [hload, hload']
      exact .inr ⟨module, made, made', rfl, rfl, hmade, hmade'⟩

theorem Twin.addSource (h : Twin c guild root place files alone fs fs') (hm : Loaded c m guild ms)
    (hm' : Loaded c m' guild ms) (hread : fs.readText source = fs'.readText source) :
    Joint c guild root place files alone (addSource c guild m fs now source)
      (addSource c guild m' fs' now' source) := by
  have hcompile : compileFile .platform fs source = compileFile .platform fs' source := by
    rw [compileFile, compileFile, hread]
  rw [Build.addSource, Build.addSource, hcompile]
  cases compileFile .platform fs' source with
  | error e => exact .failed e m m' h
  | ok module =>
    dsimp only
    cases hname : snapshotFileName module.name with
    | error e => exact .failed e m m' h
    | ok name =>
      dsimp only
      obtain ⟨hslash, rfl⟩ := eq_of_snapshotFileName hname
      have hfor : IsFor c guild (join (c.moduleDir guild) (module.name ++ ".pm")) :=
        .inl ⟨_, hslash, rfl⟩
      obtain ⟨hresult, htwin⟩ := h.replace hfor (encodeModule module)
      rw [storeModule, storeModule]
      cases hwrite : fs.replace (join (c.moduleDir guild) (module.name ++ ".pm"))
        (encodeModule module) with
      | mk written result =>
      cases hwrite' : fs'.replace (join (c.moduleDir guild) (module.name ++ ".pm"))
        (encodeModule module) with
      | mk written' result' =>
      rw [hwrite, hwrite'] at hresult htwin
      obtain rfl : result = result' := hresult
      cases result with
      | error e => exact .failed e m m' htwin
      | ok =>
        have hsame := (read_replace hwrite).trans (read_replace hwrite').symm
        dsimp only
        rcases hm.loadFile_cases hm' hsame with
          ⟨e, hload, hload'⟩ | ⟨loaded, made, made', hload, hload', hmade, hmade'⟩
        · rw [hload, hload']
          exact .failed e m m' htwin
        · rw [hload, hload']
          exact .added htwin hmade hmade'

theorem Twin.addSources (h : Twin c guild root place files alone fs fs')
    (hm : Loaded c m guild ms) (hm' : Loaded c m' guild ms)
    (hread : ∀ fs fs', Agrees root files fs → Agrees root alone fs' →
      ∀ source ∈ sources, fs.readText source = fs'.readText source) :
    Joint c guild root place files alone (addSources c guild m fs times sources)
      (addSources c guild m' fs' times' sources) := by
  induction sources generalizing fs fs' m m' ms times times' with
  | nil => exact .added h hm hm'
  | cons source rest ih =>
    have hstep : Joint c guild root place files alone
        (Build.addSource c guild m fs (times 0) source)
        (Build.addSource c guild m' fs' (times' 0) source) :=
      h.addSource hm hm' (hread fs fs' h.agrees h.agrees' source (List.mem_cons_self ..))
    rw [Build.addSources, Build.addSources]
    generalize Build.addSource c guild m fs (times 0) source = step,
      Build.addSource c guild m' fs' (times' 0) source = step' at hstep ⊢
    cases hstep with
    | failed e made made' h => exact .failed e made made' h
    | added h hm hm' =>
      exact ih h hm hm' fun fs fs' hfs hfs' source hsource =>
        hread fs fs' hfs hfs' source (List.mem_cons_of_mem _ hsource)

theorem Twin.finished (h : Twin c guild root place files alone fs fs') (ms : ModuleSet) :
    (finished c guild ms fs).1 = (finished c guild ms fs').1 ∧
      Twin c guild root place files alone (finished c guild ms fs).2
        (finished c guild ms fs').2 := by
  rw [Build.finished, Build.finished]
  cases ms.build with
  | error e => exact ⟨rfl, h⟩
  | ok v =>
    dsimp only
    obtain ⟨hresult, htwin⟩ := h.replace (.inr rfl) (encodeGuild ⟨v, ms⟩)
    cases hwrite : fs.replace (join c.cacheDir (guild.text ++ ".avc")) (encodeGuild ⟨v, ms⟩) with
    | mk written result =>
    cases hwrite' : fs'.replace (join c.cacheDir (guild.text ++ ".avc")) (encodeGuild ⟨v, ms⟩) with
    | mk written' result' =>
    rw [hwrite, hwrite'] at hresult htwin
    obtain rfl : result = result' := hresult
    cases result with
    | error e => exact ⟨rfl, htwin⟩
    | ok => exact ⟨rfl, htwin⟩

/-- The policy files of a directory are the same in two builds, whatever these have written. -/
structure SameSources (root : List String) (files alone : Files) (dir : String) : Prop where
  sources : ∀ fs, Agrees root files fs → policySources fs dir = policySources files dir
  sources' : ∀ fs, Agrees root alone fs → policySources fs dir = policySources files dir
  text : ∀ paths, policySources files dir = .ok paths → ∀ fs fs', Agrees root files fs →
    Agrees root alone fs' → ∀ source ∈ paths, fs.readText source = fs'.readText source

/-- Whatever the two managers hold, and at whatever times, the turns come to the same. -/
theorem Twin.buildGuild (h : Twin c guild root place files alone fs fs')
    (hsame : SameSources root files alone dir) (hcache : c.policy.snapshotDir = some c.cacheDir)
    (hm : Fits c m) (hm' : Fits c m') :
    (buildGuild c m fs guild dir times).1 = (buildGuild c m' fs' guild dir times').1 ∧
      Twin c guild root place files alone (buildGuild c m fs guild dir times).2.2
        (buildGuild c m' fs' guild dir times').2.2 := by
  rw [Build.buildGuild, Build.buildGuild, hsame.sources fs h.agrees, hsame.sources' fs' h.agrees']
  cases hsources : policySources files dir with
  | error e => exact ⟨rfl, h⟩
  | ok sources =>
    have hadd : Joint c guild root place files alone
        (Build.addSources c guild (m.reset (times 0) guild) fs (fun k => times (k + 1)) sources)
        (Build.addSources c guild (m'.reset (times' 0) guild) fs' (fun k => times' (k + 1))
          sources) :=
      h.addSources (hm.loaded_reset (times 0) guild) (hm'.loaded_reset (times' 0) guild)
        (hsame.text sources hsources)
    dsimp only
    generalize Build.addSources c guild (m.reset (times 0) guild) fs _ sources = step,
      Build.addSources c guild (m'.reset (times' 0) guild) fs' _ sources = step' at hadd ⊢
    cases hadd with
    | failed e made made' h => exact ⟨rfl, h⟩
    | added h hm hm' =>
      obtain ⟨made, hfinish⟩ := hm.finishGuild_eq hcache
      obtain ⟨made', hfinish'⟩ := hm'.finishGuild_eq hcache
      dsimp only
      rw [hfinish, hfinish']
      exact h.finished _

theorem Twin.buildOther (h : Twin c guild root place files alone fs fs')
    (hcache : c.policy.snapshotDir = some c.cacheDir) (hm : Fits c m) (hne : other ≠ guild) :
    Twin c guild root place files alone (Build.buildGuild c m fs other dir times).2.2 fs' := by
  rw [files_buildGuild]
  exact h.writeAll (fun w => isFor_of_mem_guildWrites hm hcache) hne

end GuildPolicy.Build
