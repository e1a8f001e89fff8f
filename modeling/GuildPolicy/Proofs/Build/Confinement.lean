import GuildPolicy.Proofs.Build.Alone
import GuildPolicy.Proofs.Files.Operations

namespace GuildPolicy.Build

open GuildPolicy.Path Files

variable {c : BuildConfig} {guild : Uuid} {m : Manager} {files fs fs' : Files} {w : Write}
variable {path dir name beside : String} {p place : List String} {op : Operation}

/-- A guild of the tree of policy files. -/
def IsGuild (c : BuildConfig) (files : Files) (guild : Uuid) : Prop :=
  ∃ guilds dir, guildDirs files c.sourceDir = .ok guilds ∧ (guild, dir) ∈ guilds

/-- The places of what a build writes for a guild: of its snapshot, of those of its modules, and
beside them. -/
inductive Output (guild : Uuid) (place : List String) : List String → Prop
  | snapshot {beside : String} (h : beside ∈ ["", ".tmp"]) :
    Output guild place (place ++ [guild.text ++ ".avc" ++ beside])
  | module {name beside : String} (hname : '/' ∉ name.toList) (h : beside ∈ ["", ".tmp"]) :
    Output guild place (place ++ ["modules", guild.text] ++ [name ++ ".pm" ++ beside])

/-- An operation for a guild: it is needed to replace its snapshot or that of one of its modules. -/
def Within (c : BuildConfig) (guild : Uuid) (op : Operation) : Prop :=
  ∃ path, IsFor c guild path ∧ op.Serves path

theorem walk_join (fs : Files) (dir : String) (hname : IsName name) :
    walk (fs.start (join dir name)) (names (join dir name)) =
      walk (fs.start dir) (names dir) ++ [name] := by
  have hstart : fs.start (join dir name) = fs.start dir := by
    rw [start, start, isAbsolute_join dir hname]
  rw [hstart, names_join dir hname, walk_concat hname.ne_dots]

theorem isName_beside (hname : IsName name) (h : beside ∈ ["", ".tmp"]) :
    IsName (name ++ beside) := by
  rcases List.mem_pair.1 h with rfl | rfl
  · rw [String.append_empty]
    exact hname
  · exact isName_append hname.noSlash (by decide) (by decide)

theorem moduleDir_eq (c : BuildConfig) (guild : Uuid) :
    isAbsolute (c.moduleDir guild) = isAbsolute c.cacheDir ∧
      names (c.moduleDir guild) = names c.cacheDir ++ ["modules", guild.text] ∧
      ∀ fs : Files, walk (fs.start (c.moduleDir guild)) (names (c.moduleDir guild)) =
        cachePlace c fs ++ ["modules", guild.text] := by
  have hmodules : IsName "modules" := by decide
  refine ⟨?_, ?_, fun fs => ?_⟩
  · rw [BuildConfig.moduleDir, isAbsolute_join _ guild.isName_text, isAbsolute_join _ hmodules]
  · rw [BuildConfig.moduleDir, names_join _ guild.isName_text, names_join _ hmodules,
      List.append_assoc]
    rfl
  · rw [BuildConfig.moduleDir, walk_join fs _ guild.isName_text, walk_join fs _ hmodules,
      List.append_assoc]
    rfl

theorem IsFor.output (h : IsFor c guild path) : ∃ dir file, path = join dir file ∧ IsName file ∧
    isAbsolute dir = isAbsolute c.cacheDir ∧
    names dir <+: names c.cacheDir ++ ["modules", guild.text] ∧
    ∀ fs : Files, ∀ beside ∈ ["", ".tmp"], Output guild (cachePlace c fs)
      (walk (fs.start dir) (names dir) ++ [file ++ beside]) := by
  rcases h with ⟨name, hslash, rfl⟩ | rfl
  · obtain ⟨habsolute, hnames, hwalk⟩ := moduleDir_eq c guild
    refine ⟨_, _, rfl, isName_append hslash (by decide) (by decide), habsolute, ?_, ?_⟩
    · rw [hnames]
    · intro fs beside hbeside
      rw [hwalk]
      exact .module hslash hbeside
  · refine ⟨_, _, rfl, isName_snapshot guild, rfl, List.prefix_append .., ?_⟩
    intro fs beside hbeside
    exact .snapshot hbeside

/-- A place to which the path of the modules of a guild leads on the way. If the path goes down from
a directory that there is, the place is above them. -/
structure OnWay (c : BuildConfig) (files : Files) (guild : Uuid) (p : List String) : Prop where
  names : ∃ ns, ns <+: names c.cacheDir ++ ["modules", guild.text] ∧
    p = walk (files.start c.cacheDir) ns
  above : ∀ place, files.Points c.cacheDir place → p <+: place ++ ["modules", guild.text]

theorem onWay_of_none {ns : List String} (hns : ns <+: names c.cacheDir ++ ["modules", guild.text])
    (hnone : files.entryAt? (walk (files.start c.cacheDir) ns) = none) :
    OnWay c files guild (walk (files.start c.cacheDir) ns) := by
  refine ⟨⟨ns, hns, rfl⟩, fun place hplace => ?_⟩
  obtain ⟨habsolute, hnames, -⟩ := moduleDir_eq c guild
  have hstart : files.start (c.moduleDir guild) = files.start c.cacheDir := by
    rw [start, start, habsolute]
  have hpoints : files.Points (c.moduleDir guild) (place ++ ["modules", guild.text]) := by
    have hdown := (hplace.join (by decide : IsName "modules")).join guild.isName_text
    rwa [List.append_assoc] at hdown
  rw [← hnames] at hns
  rw [← hstart] at hnone ⊢
  exact hpoints.prefix_of_none hns hnone

/-- What a build may have done to files by some moment. -/
structure Confined (c : BuildConfig) (files made : Files) : Prop where
  keeps : files.Keeps made
  entries : ∀ p, made.entryAt? p = files.entryAt? p ∨
    (∃ guild, IsGuild c files guild ∧ Output guild (cachePlace c files) p) ∨
    files.entryAt? p = none ∧ made.entryAt? p = some .directory ∧
      ∃ guild, IsGuild c files guild ∧ OnWay c files guild p

namespace Confined

theorem refl (c : BuildConfig) (files : Files) : Confined c files files :=
  ⟨.refl files, fun _ => .inl rfl⟩

theorem apply (h : Confined c files fs) (hguild : IsGuild c files guild)
    (hop : Within c guild op) (ha : op.apply fs = .ok fs') : Confined c files fs' := by
  obtain ⟨path, hfor, hserves⟩ := hop
  obtain ⟨dir, file, rfl, hname, habsolute, hnames, houtput⟩ := hfor.output
  have hchanges := hserves.changes ha
  have hstart (q : String) (hq : isAbsolute q = isAbsolute c.cacheDir) :
      fs.start q = files.start c.cacheDir := by
    rw [start, start, hq, h.keeps.working]
  have hends {beside : String} (hbeside : beside ∈ ["", ".tmp"]) {p : List String}
      (hp : fs.Ends (join dir file ++ beside) p) : Output guild (cachePlace c files) p := by
    have hplace := hp.place
    rw [join_append dir beside hname, walk_join fs dir (isName_beside hname hbeside)] at hplace
    have hcache : cachePlace c fs = cachePlace c files := by
      rw [cachePlace, cachePlace, hstart c.cacheDir rfl]
    rw [← hplace, ← hcache]
    exact houtput fs beside hbeside
  refine ⟨h.keeps.trans hchanges.keeps, fun p => ?_⟩
  rcases hchanges.entries p with hsame | (⟨-, hp⟩ | hp) | ⟨hnone, hnew, ns, hns, hp⟩
  · rw [entryAt?_eq_of_get? hchanges.keeps.working hsame]
    exact h.entries p
  · have hp : fs.Ends (join dir file ++ "") p := by
      rw [String.append_empty]
      exact hp
    exact .inr (.inl ⟨guild, hguild, hends (by decide) hp⟩)
  · exact .inr (.inl ⟨guild, hguild, hends (by decide) hp⟩)
  · rw [names_join dir hname, List.dropLast_concat] at hns
    rw [hstart _ ((isAbsolute_join dir hname).trans habsolute)] at hp
    rcases h.entries p with hsame | hout | ⟨-, hdir, -⟩
    · subst hp
      have hmissing := hsame.symm.trans hnone
      have honway : OnWay c files guild _ := onWay_of_none (hns.trans hnames) hmissing
      exact .inr (.inr ⟨hmissing, hnew, guild, hguild, honway⟩)
    · exact .inr (.inl hout)
    · rw [hdir] at hnone
      cases hnone

end Confined

end GuildPolicy.Build
