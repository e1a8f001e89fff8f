import GuildPolicy.Proofs.Build.Frame
import GuildPolicy.Proofs.Files.Locality

namespace GuildPolicy.Build

open GuildPolicy.Path Files

variable {c : BuildConfig} {guild other : Uuid} {fs fs' made : Files} {path : String}
variable {root place p : List String} {bytes : List UInt8}

/-- The directory of a guild's modules, by the place of the cache directory. -/
def moduleRoot (guild : Uuid) (place : List String) : List String :=
  place ++ ["modules", guild.text]

/-- The places of the files of a guild: those with an extension in the directory of its modules,
and those that are named by its id and an extension. -/
inductive Own (guild : Uuid) (place : List String) : List String → Prop
  | module {file : String} (hdot : '.' ∈ file.toList) :
    Own guild place (moduleRoot guild place ++ [file])
  | snapshot {extension : String} (hdot : extension.toList.head? = some '.') :
    Own guild place (place ++ [guild.text ++ extension])

theorem takeWhile_text {extension : String} (hdot : extension.toList.head? = some '.') :
    (guild.text ++ extension).toList.takeWhile (· ≠ '.') = guild.text.toList := by
  obtain ⟨cs, hcs⟩ := List.head?_eq_some_iff.1 hdot
  have hnone : ∀ c ∈ guild.text.toList, decide (c ≠ '.') = true := by
    refine fun c hc => decide_eq_true ?_
    rintro rfl
    exact absurd (Uuid.mem_text hc) (by decide)
  rw [String.toList_append, hcs, List.takeWhile_append_of_pos hnone,
    List.takeWhile_cons_of_neg (by decide), List.append_nil]

theorem dot_mem_append {extension : String} (hdot : extension.toList.head? = some '.')
    (name : String) : '.' ∈ (name ++ extension).toList := by
  rw [String.toList_append, List.mem_append]
  exact .inr (List.mem_of_mem_head? hdot)

namespace Own

/-- No file of a guild is on the way to those of any. -/
theorem beyond (h : Own guild place p) (other : Uuid) : ¬p <+: moduleRoot other place := by
  rw [moduleRoot]
  cases h with
  | module hdot =>
    intro hpre
    have hlength := hpre.length_le
    rw [moduleRoot] at hlength
    simp only [List.length_append, List.length_cons, List.length_nil] at hlength
    omega
  | snapshot hdot =>
    rw [List.prefix_append_right_inj, List.cons_prefix_cons]
    rintro ⟨hname, -⟩
    have hmem := dot_mem_append hdot guild.text
    rw [hname] at hmem
    exact absurd hmem (by decide)

theorem unique (h : Own guild place p) (h' : Own other place p) : guild = other := by
  generalize hp : p = p' at h'
  cases h with
  | module hdot =>
    cases h' with
    | module hdot' =>
      rw [moduleRoot, moduleRoot, List.append_assoc, List.append_assoc] at hp
      exact Uuid.text_inj (List.cons.inj (List.cons.inj (List.append_cancel_left hp)).2).1
    | snapshot hdot' =>
      have hlength := congrArg List.length hp
      rw [moduleRoot] at hlength
      simp only [List.length_append, List.length_cons, List.length_nil] at hlength
      omega
  | snapshot hdot =>
    cases h' with
    | module hdot' =>
      have hlength := congrArg List.length hp
      rw [moduleRoot] at hlength
      simp only [List.length_append, List.length_cons, List.length_nil] at hlength
      omega
    | snapshot hdot' =>
      have hname := List.singleton_inj.1 (List.append_cancel_left hp)
      have htext : guild.text.toList = other.text.toList := by
        rw [← takeWhile_text hdot, hname, takeWhile_text hdot']
      exact Uuid.text_inj (String.toList_inj.1 htext)

theorem entryAt?_replace {dir file : String} {there : List String} (h : Own guild place p)
    (hpoints : fs.Points dir there) (hthere : there <+: moduleRoot other place)
    (hname : IsName file) (hbeside : IsName (file ++ ".tmp"))
    (hfile : (fs.replace (join dir file) bytes).2 = .ok () → p ≠ there ++ [file])
    (hp : p ≠ there ++ [file ++ ".tmp"]) :
    Files.entryAt? (fs.replace (join dir file) bytes).1 p = fs.entryAt? p := by
  rcases hpoints.entryAt?_replace bytes hname hbeside p with
    hsame | ⟨hdone, heq⟩ | heq | ⟨-, -, hpre⟩
  · exact hsame
  · exact absurd heq (hfile hdone)
  · exact absurd heq hp
  · exact absurd (hpre.trans hthere) (h.beyond other)

end Own

/-- What a guild writes is a file of its own, and so is what is beside it on the way; the directory
that they are in is on the way to its modules. -/
theorem IsFor.target (h : IsFor c guild path) (place : List String) :
    ∃ dir file there, path = join dir file ∧ IsName file ∧ IsName (file ++ ".tmp") ∧
      there <+: moduleRoot guild place ∧
      (∀ fs : Files, fs.Points c.cacheDir place → fs.Points dir there) ∧
      ∀ name, name = file ∨ name = file ++ ".tmp" → Own guild place (there ++ [name]) := by
  rcases h with ⟨name, hslash, rfl⟩ | rfl
  · have hfile : IsName (name ++ ".pm") := isName_append hslash (by decide) (by decide)
    refine ⟨_, _, moduleRoot guild place, rfl, hfile,
      isName_append hfile.noSlash (by decide) (by decide), List.prefix_refl _, fun fs hfs => ?_, ?_⟩
    · have hpoints := (hfs.join (by decide : IsName "modules")).join guild.isName_text
      rwa [List.append_assoc] at hpoints
    · rintro _ (rfl | rfl)
      · exact .module (dot_mem_append rfl name)
      · exact .module (dot_mem_append rfl (name ++ ".pm"))
  · have hfile := isName_snapshot guild
    refine ⟨_, _, place, rfl, hfile, isName_append hfile.noSlash (by decide) (by decide),
      List.prefix_append .., fun fs hfs => hfs, ?_⟩
    rintro _ (rfl | rfl)
    · exact .snapshot rfl
    · rw [String.append_assoc]
      exact .snapshot rfl

/-- Only files of a guild are other than before, and there are new directories on the way to its
modules. -/
structure Fills (guild : Uuid) (place : List String) (fs fs' : Files) : Prop where
  keeps : fs.Keeps fs'
  rooted : fs.Rooted → fs'.Rooted
  entries : ∀ p, fs'.entryAt? p = fs.entryAt? p ∨ Own guild place p ∨
    fs.entryAt? p = none ∧ fs'.entryAt? p = some .directory ∧ p <+: moduleRoot guild place

theorem IsFor.fills (h : IsFor c guild path) (hpoints : fs.Points c.cacheDir place)
    (bytes : List UInt8) : Fills guild place fs (fs.replace path bytes).1 := by
  obtain ⟨dir, file, there, rfl, hname, hbeside, hthere, hdir, hown⟩ := h.target place
  have hchanges := changes_replace fs (join dir file) bytes
  refine ⟨hchanges.keeps, hchanges.rooted, fun p => ?_⟩
  rcases (hdir fs hpoints).entryAt?_replace bytes hname hbeside p with
    hsame | ⟨-, rfl⟩ | rfl | ⟨hnone, hnew, hpre⟩
  · exact .inl hsame
  · exact .inr (.inl (hown _ (.inl rfl)))
  · exact .inr (.inl (hown _ (.inr rfl)))
  · exact .inr (.inr ⟨hnone, hnew, hpre.trans hthere⟩)

namespace Fills

theorem sameFile (h : Fills guild place fs fs') (hp : p <+: moduleRoot other place) :
    fs.SameFile fs' p := by
  intro bytes
  rcases h.entries p with hsame | hown | ⟨hnone, hnew, -⟩
  · rw [hsame]
  · exact absurd hp (hown.beyond other)
  · rw [hnone, hnew]
    exact ⟨nofun, nofun⟩

theorem entryAt?_eq_of_own (h : Fills guild place fs fs') (hne : guild ≠ other)
    (hp : Own other place p) : fs'.entryAt? p = fs.entryAt? p := by
  rcases h.entries p with hsame | hown | ⟨-, -, hpre⟩
  · exact hsame
  · exact absurd (hown.unique hp) hne
  · exact absurd hpre (hp.beyond guild)

end Fills

/-- For a guild that writes below a place, two collections come to the same: they have the same
files on the way there, and of its own files they have the same. -/
structure Alike (c : BuildConfig) (guild : Uuid) (place : List String) (fs fs' : Files) : Prop where
  working : fs'.working = fs.working
  rooted : fs.Rooted
  rooted' : fs'.Rooted
  points : fs.Points c.cacheDir place
  points' : fs'.Points c.cacheDir place
  files : ∀ p, p <+: moduleRoot guild place → fs.SameFile fs' p
  own : ∀ p, Own guild place p → fs.entryAt? p = fs'.entryAt? p

namespace Alike

/-- What another guild writes in one of two collections makes no difference. -/
theorem fill (h : Alike c guild place fs fs') (hfills : Fills other place fs made)
    (hne : other ≠ guild) : Alike c guild place made fs' where
  working := h.working.trans hfills.keeps.working.symm
  rooted := hfills.rooted h.rooted
  rooted' := h.rooted'
  points := h.points.keeps hfills.keeps
  points' := h.points'
  files p hp bytes := (hfills.sameFile hp bytes).symm.trans (h.files p hp bytes)
  own p hp := (hfills.entryAt?_eq_of_own hne hp).trans (h.own p hp)

/-- What a guild writes in two collections that are alike for it comes to the same in both. -/
theorem replace (h : Alike c guild place fs fs') (hfor : IsFor c guild path)
    (bytes : List UInt8) : (fs.replace path bytes).2 = (fs'.replace path bytes).2 ∧
      Alike c guild place (fs.replace path bytes).1 (fs'.replace path bytes).1 := by
  have hfills := hfor.fills h.points bytes
  have hfills' := hfor.fills h.points' bytes
  obtain ⟨dir, file, there, rfl, hname, hbeside, hthere, hdir, hown⟩ := hfor.target place
  have hpoints := hdir fs h.points
  have hpoints' := hdir fs' h.points'
  obtain ⟨hresult, hwritten⟩ := replace_congr bytes h.rooted h.rooted' h.working hpoints hpoints'
    (fun p hp => h.files p (hp.trans hthere)) hname hbeside fun name hn => h.own _ (hown name hn)
  refine ⟨hresult, ?_, hfills.rooted h.rooted, hfills'.rooted h.rooted',
    h.points.keeps hfills.keeps, h.points'.keeps hfills'.keeps, fun p hp bytes' => ?_,
    fun p hp => ?_⟩
  · rw [hfills'.keeps.working, hfills.keeps.working, h.working]
  · exact ((hfills.sameFile hp bytes').symm.trans (h.files p hp bytes')).trans
      (hfills'.sameFile hp bytes')
  · by_cases hnew : ∃ name, (name = file ∨ name = file ++ ".tmp") ∧ p = there ++ [name]
    · obtain ⟨name, hn, rfl⟩ := hnew
      exact hwritten name hn
    have hkept {fs : Files} (hpoints : fs.Points dir there) :
        Files.entryAt? (fs.replace (join dir file) bytes).1 p = fs.entryAt? p :=
      hp.entryAt?_replace hpoints hthere hname hbeside
        (fun _ hp => hnew ⟨file, .inl rfl, hp⟩) fun hp => hnew ⟨_, .inr rfl, hp⟩
    exact (hkept hpoints).trans ((h.own p hp).trans (hkept hpoints').symm)

end Alike

end GuildPolicy.Build
