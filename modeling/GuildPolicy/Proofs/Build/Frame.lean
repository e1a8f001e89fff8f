import GuildPolicy.Proofs.Build.Sources
import GuildPolicy.Proofs.Build.Writes
import GuildPolicy.Proofs.Guild.Uuid

namespace GuildPolicy

open GuildPolicy.Path

theorem Uuid.isName_text (g : Uuid) : IsName g.text := by
  refine ⟨text_ne_nil g, fun h => ?_, fun h => ?_, fun h => ?_⟩
  · exact absurd (mem_text h) (by decide)
  · have hdot : '.' ∈ g.text.toList := by rw [h]; exact List.mem_singleton_self _
    exact absurd (mem_text hdot) (by decide)
  · have hdot : '.' ∈ g.text.toList := by rw [h]; exact List.mem_cons_self ..
    exact absurd (mem_text hdot) (by decide)

namespace Files

variable {fs fs' : Files} {path dir name : String} {p : List String}

/-- No beginning of a path leads to a place. -/
def Avoids (fs : Files) (path : String) (p : List String) : Prop :=
  ∀ ns, ns <+: names path → walk (fs.start path) ns ≠ p

theorem Avoids.join (h : fs.Avoids dir p) (hname : IsName name) (hlast : p.getLast? ≠ some name) :
    fs.Avoids (join dir name) p := by
  have hstart : fs.start (Path.join dir name) = fs.start dir := by
    rw [start, start, isAbsolute_join dir hname]
  intro ns hns
  rw [hstart]
  rw [names_join dir hname, List.prefix_concat_iff] at hns
  rcases hns with rfl | hns
  · intro hp
    rw [← hp, walk_concat hname.ne_dots] at hlast
    exact hlast List.getLast?_concat
  · exact h ns hns

theorem Avoids.congr (h : fs.Avoids path p) (hworking : fs'.working = fs.working) :
    fs'.Avoids path p := by
  have hstart : fs'.start path = fs.start path := by rw [start, start, hworking]
  intro ns hns
  rw [hstart]
  exact h ns hns

end Files

namespace Build

open Files

variable {c : BuildConfig} {guild other : Uuid} {m : Manager} {files : Files} {w : Write}

/-- The path of a module of a guild. -/
def IsModule (c : BuildConfig) (guild : Uuid) (path : String) : Prop :=
  ∃ name, '/' ∉ name.toList ∧ path = join (c.moduleDir guild) (name ++ ".pm")

/-- The path of a module of a guild, or that of the snapshot of the guild. -/
def IsFor (c : BuildConfig) (guild : Uuid) (path : String) : Prop :=
  IsModule c guild path ∨ path = join c.cacheDir (guild.text ++ ".avc")

theorem eq_of_snapshotFileName {module name : String} (h : snapshotFileName module = .ok name) :
    '/' ∉ module.toList ∧ name = module ++ ".pm" := by
  rw [snapshotFileName] at h
  split at h
  · cases h
  · next hnot =>
    cases h
    exact ⟨fun hslash => hnot (.inl hslash), rfl⟩

theorem isModule_of_mem_sourceWrites {source : String}
    (hw : w ∈ sourceWrites c guild files source) : IsModule c guild w.path := by
  rw [sourceWrites] at hw
  split at hw
  · cases hw
  split at hw
  · cases hw
  next name hname =>
  obtain ⟨hslash, rfl⟩ := eq_of_snapshotFileName hname
  cases List.mem_singleton.1 hw
  exact ⟨_, hslash, rfl⟩

theorem isModule_of_mem_sourcesWrites {times : Nat → Nat} {sources : List String}
    (hw : w ∈ sourcesWrites c guild m files times sources) : IsModule c guild w.path := by
  induction sources generalizing m files times with
  | nil => cases hw
  | cons source rest ih =>
    rw [sourcesWrites] at hw
    rcases List.mem_append.1 hw with hw | hw
    · exact isModule_of_mem_sourceWrites hw
    · split at hw
      · cases hw
      · exact ih hw

theorem isFor_of_mem_finishWrites {times : Nat → Nat} (hm : Fits c m)
    (hcache : c.policy.snapshotDir = some c.cacheDir)
    (hw : w ∈ finishWrites guild m files times) : IsFor c guild w.path := by
  have hcompiled := hm.moves (m.compileAll_moves .blank (times 0) files guild)
  rw [finishWrites] at hw
  split at hw
  · cases hw
  next hcompile =>
  rw [hcompile] at hcompiled
  rw [storeWrites, hcompiled.config, Config.snapshotPath?, hcache] at hw
  cases List.mem_singleton.1 hw
  exact .inr rfl

theorem isFor_of_mem_guildWrites {dir : String} {times : Nat → Nat} (hm : Fits c m)
    (hcache : c.policy.snapshotDir = some c.cacheDir)
    (hw : w ∈ guildWrites c guild m files dir times) : IsFor c guild w.path := by
  rw [guildWrites] at hw
  split at hw
  · cases hw
  next sources hsources =>
  rcases List.mem_append.1 hw with hw | hw
  · exact .inl (isModule_of_mem_sourcesWrites hw)
  · split at hw
    · cases hw
    · next hadd =>
      have hadded : Fits c (addSources c guild (m.reset (times 0) guild) files
          (fun k => times (k + 1)) sources).2.1 := (hm.reset (times 0) guild).addSources sources
      rw [hadd] at hadded
      exact isFor_of_mem_finishWrites hadded hcache hw

section Leaves

variable {fs fs' : Files} {root : List String} {path : String} {bytes : List UInt8}
variable {ws : List Write}

/-- The path of the cache directory does not lead through a policy file, two below a place, that
is missing. So none appears when the directory is created. -/
def Clear (c : BuildConfig) (files : Files) (root : List String) : Prop :=
  ∀ guild name, hasExtension name "policy" = true → files.entryAt? (root ++ [guild, name]) = none →
    files.Avoids c.cacheDir (root ++ [guild, name])

/-- Where the cache directory is or would be. -/
def cachePlace (c : BuildConfig) (files : Files) : List String :=
  walk (files.start c.cacheDir) (names c.cacheDir)

/-- The cache directory is not inside a directory. -/
def Outside (c : BuildConfig) (files : Files) (root : List String) : Prop :=
  ∀ name, ¬root ++ [name] <+: cachePlace c files

theorem outside_of_not_above (h : ¬root <+: cachePlace c files) : Outside c files root := by
  intro name hname
  exact h ((List.prefix_append root [name]).trans hname)

theorem Outside.congr (h : Outside c files root) (hworking : fs'.working = files.working) :
    Outside c fs' root := by
  rw [Outside, cachePlace, start, hworking]
  exact h

/-- The path of the cache directory goes up from no policy file, two below a place, that is
missing. -/
def Grounded (c : BuildConfig) (files : Files) (root : List String) : Prop :=
  ∀ ns guild name, ns ++ [".."] <+: names c.cacheDir → hasExtension name "policy" = true →
    walk (files.start c.cacheDir) ns = root ++ [guild, name] →
    files.entryAt? (root ++ [guild, name]) ≠ none

/-- The path of a cache directory that is outside leads through the directory only to go up
again. -/
theorem clear_of_outside (houtside : Outside c files root) (hgrounded : Grounded c files root) :
    Clear c files root := by
  intro guild name hname hnone ns hns hwalk
  obtain ⟨ms, hms⟩ := hns
  have hstays : root ++ [guild, name] <+: walk (root ++ [guild, name]) ms := by
    refine prefix_walk (List.prefix_refl _) fun ms' hms' hback => ?_
    refine hgrounded (ns ++ ms') guild name ?_ hname ?_ hnone
    · rw [← hms, List.append_assoc]
      exact (List.prefix_append_right_inj ns).2 hms'
    · rw [walk_append, hwalk]
      exact hback
  refine houtside guild (List.IsPrefix.trans ?_ hstays |>.trans ?_)
  · exact (List.prefix_append_right_inj root).2 (List.prefix_append [guild] [name])
  · rw [cachePlace, ← hms, walk_append, hwalk]

theorem grounded_of_notMem (hup : ".." ∉ names c.cacheDir) : Grounded c files root := by
  intro ns guild name hns
  exact absurd (hns.subset (List.mem_append_right ns (List.mem_singleton_self _))) hup

theorem isName_snapshot (guild : Uuid) : IsName (guild.text ++ ".avc") :=
  isName_append guild.isName_text.noSlash (by decide) (by decide)

theorem IsFor.named (h : IsFor c guild path) : ∃ dir file, path = join dir file ∧ IsName file ∧
    (dir = c.moduleDir guild ∨ dir = c.cacheDir) ∧
    (file.toList.getLast? = some 'm' ∨ file = guild.text ++ ".avc") := by
  rcases h with ⟨name, hslash, rfl⟩ | rfl
  · exact ⟨_, _, rfl, isName_append hslash (by decide) (by decide), .inl rfl,
      .inl (getLast?_append name _ (by decide))⟩
  · exact ⟨_, _, rfl, isName_snapshot guild, .inr rfl, .inr rfl⟩

/-- A build creates nothing in the place of a policy file. -/
theorem IsFor.avoids (h : IsFor c guild path) {p : List String} {name : String}
    (hlast : p.getLast? = some name) (hname : hasExtension name "policy" = true)
    (hcache : fs.Avoids c.cacheDir p) : fs.Avoids path p := by
  have hpolicy : name.toList.getLast? = some 'y' := getLast?_of_hasExtension hname (by decide)
  have hother {other : String} (hne : other.toList.getLast? ≠ some 'y') :
      p.getLast? ≠ some other := by
    rw [hlast]
    rintro ⟨⟩
    exact hne hpolicy
  have hmodules : fs.Avoids (join c.cacheDir "modules") p :=
    hcache.join (by decide) (hother (by decide))
  have hguild : guild.text.toList.getLast? ≠ some 'y' := by
    intro hy
    exact absurd (Uuid.mem_text (List.mem_of_getLast? hy)) (by decide)
  have hmodule : fs.Avoids (c.moduleDir guild) p :=
    hmodules.join guild.isName_text (hother hguild)
  obtain ⟨dir, file, rfl, hfile, hdir, hend⟩ := h.named
  have hy : file.toList.getLast? ≠ some 'y' := by
    rcases hend with hm | rfl
    · rw [hm]
      decide
    · rw [getLast?_append _ _ (by decide)]
      decide
  rcases hdir with rfl | rfl
  · exact hmodule.join hfile (hother hy)
  · exact hcache.join hfile (hother hy)

theorem agrees_replace (h : Agrees root fs fs') (hfor : IsFor c guild path)
    (hclear : Clear c fs root) : Agrees root fs (fs'.replace path bytes).1 := by
  have hchanges := changes_replace fs' path bytes
  refine ⟨h.keeps.trans hchanges.keeps, fun g name hname => ?_⟩
  rw [← h.policy g name hname]
  have hlast : (root ++ [g, name]).getLast? = some name :=
    List.getLast?_append_of_ne_nil _ (List.cons_ne_nil _ _)
  have hpolicy : name.toList.getLast? = some 'y' := getLast?_of_hasExtension hname (by decide)
  have havoids (hnone : fs'.entryAt? (root ++ [g, name]) = none) :
      fs'.Avoids path (root ++ [g, name]) := by
    rw [entryAt?_eq_of_get? h.keeps.working (h.policy g name hname)] at hnone
    exact hfor.avoids hlast hname ((hclear g name hname hnone).congr h.keeps.working)
  obtain ⟨dir, file, rfl, hfile, -, hend⟩ := hfor.named
  refine hchanges.get?_eq (fun _ => ?_) ?_ fun hnone ns hns hp => havoids hnone ns hns hp.symm
  · rw [hlast, lastName?_join dir hfile]
    rintro ⟨⟩
    rcases hend with hm | rfl
    · rw [hpolicy] at hm
      cases hm
    · rw [getLast?_append _ _ (by decide)] at hpolicy
      cases hpolicy
  · rw [hlast, lastName?_beside hfile]
    rintro ⟨⟩
    rw [getLast?_append _ _ (by decide)] at hpolicy
    cases hpolicy

theorem read_replace_snapshot {dir file : String} (hfile : IsName file)
    (hne : (fs.replace (join dir file) bytes).2 = .ok () → file ≠ guild.text ++ ".avc")
    {kept : List UInt8} (hr : fs.read (join c.cacheDir (guild.text ++ ".avc")) = .ok kept) :
    (fs.replace (join dir file) bytes).1.read (join c.cacheDir (guild.text ++ ".avc")) =
      .ok kept := by
  have hsnapshot := isName_snapshot guild
  refine (changes_replace fs _ bytes).read hr (fun hdone heq => ?_) ?_
  · rw [lastName?_join _ hsnapshot, lastName?_join dir hfile] at heq
    exact hne hdone (Option.some.inj heq).symm
  · rw [lastName?_join _ hsnapshot, lastName?_beside hfile]
    intro heq
    have hlast := getLast?_append file ".tmp" (by decide)
    rw [← Option.some.inj heq, getLast?_append _ _ (by decide)] at hlast
    cases hlast

theorem read_replace_of_ne (hfor : IsFor c guild path) (hne : other ≠ guild) {kept : List UInt8}
    (hr : fs.read (join c.cacheDir (other.text ++ ".avc")) = .ok kept) :
    (fs.replace path bytes).1.read (join c.cacheDir (other.text ++ ".avc")) = .ok kept := by
  obtain ⟨dir, file, rfl, hfile, -, hend⟩ := hfor.named
  refine read_replace_snapshot hfile (fun _ => ?_) hr
  rintro rfl
  rcases hend with hm | he
  · rw [getLast?_append _ _ (by decide)] at hm
    cases hm
  · rw [← String.toList_inj, String.toList_append, String.toList_append, List.append_left_inj,
      String.toList_inj] at he
    exact hne (Uuid.text_inj he)

theorem agrees_writeAll (h : Agrees root fs fs') (hws : ∀ w ∈ ws, IsFor c guild w.path)
    (hclear : Clear c fs root) : Agrees root fs (fs'.writeAll ws) := by
  induction ws generalizing fs' with
  | nil => exact h
  | cons w ws ih =>
    obtain ⟨hw, hws⟩ := List.forall_mem_cons.1 hws
    exact ih (agrees_replace h hw hclear) hws

theorem read_writeAll_of_ne (hws : ∀ w ∈ ws, IsFor c guild w.path) (hne : other ≠ guild)
    {kept : List UInt8} (hr : fs.read (join c.cacheDir (other.text ++ ".avc")) = .ok kept) :
    (fs.writeAll ws).read (join c.cacheDir (other.text ++ ".avc")) = .ok kept := by
  induction ws generalizing fs with
  | nil => exact hr
  | cons w ws ih =>
    obtain ⟨hw, hws⟩ := List.forall_mem_cons.1 hws
    exact ih hws (read_replace_of_ne hw hne hr)

end Leaves

end Build

end GuildPolicy
