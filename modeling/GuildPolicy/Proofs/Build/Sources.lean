import GuildPolicy.Build.Report
import GuildPolicy.Proofs.Files.Listing
import Mathlib.Data.List.Forall2

namespace GuildPolicy

open GuildPolicy.Path

namespace Build

/-- A policy file compiles, to a module with a name under which there can be a snapshot of it. -/
structure Compiles (files : Files) (source : String) (module : PolicyModule) : Prop where
  compiled : ∃ text, files.readText source = .ok text ∧
    compile .platform text source = .ok module
  named : module.name ≠ ""
  stored : ∃ name, snapshotFileName module.name = .ok name

/-- Modules under their names, each in the place of an earlier one of its name. -/
def collect (modules : List PolicyModule) : ModuleSet :=
  modules.foldl (fun ms m => ms.insert m.name m) .empty

/-- The modules that the policy files of a directory make in the order of their names, and what
these are merged into. -/
structure Makes (files : Files) (dir : String) (ms : ModuleSet) (v : AccessVector) : Prop where
  modules : ∃ entries modules, files.list dir = .ok entries ∧
    (entries.Pairwise fun a b => a.1 < b.1) ∧
    List.Forall₂ (fun e m => Compiles files (join dir e.1) m)
      (entries.filter fun e => hasExtension e.1 "policy") modules ∧ ms = collect modules
  merged : ms.build = .ok v

variable {files : Files} {dir : String} {ms : ModuleSet} {v : AccessVector}

theorem makes_iff : Makes files dir ms v ↔ ∃ sources modules,
    policySources files dir = .ok sources ∧ List.Forall₂ (Compiles files) sources modules ∧
      ms = collect modules ∧ ms.build = .ok v := by
  rw [policySources]
  constructor
  · rintro ⟨⟨entries, modules, hlist, -, hcompiles, hms⟩, hmerged⟩
    rw [hlist]
    exact ⟨_, modules, rfl, List.forall₂_map_left_iff.2 hcompiles, hms, hmerged⟩
  · rintro ⟨sources, modules, hsources, hcompiles, hms, hmerged⟩
    split at hsources
    · cases hsources
    next entries hlist =>
    cases hsources
    exact ⟨⟨entries, modules, hlist, Files.pairwise_of_list hlist,
      List.forall₂_map_left_iff.1 hcompiles, hms⟩, hmerged⟩

theorem policySources_eq {place : List String} {entries : List (String × FileEntry)}
    (hplace : files.directory? dir = .ok place)
    (hperm : (files.entries.entries.filterMap fun (p, e) =>
      if p.dropLast = place then p.getLast?.map (·, e) else none).Perm entries)
    (hsorted : entries.Pairwise fun a b => a.1 < b.1) : policySources files dir =
      .ok ((entries.filter fun e => hasExtension e.1 "policy").map fun e => join dir e.1) := by
  rw [policySources, Files.list_eq hplace hperm hsorted]

end Build

namespace Files

variable {fs fs' : Files} {root place : List String} {dir name : String}

theorem find_join_congr (hfollow : fs.follow (fs.start dir) (names dir) = .ok place)
    (hfollow' : fs'.follow (fs'.start dir) (names dir) = .ok place) (hname : IsName name)
    (he : fs'.entryAt? (place ++ [name]) = fs.entryAt? (place ++ [name])) :
    fs'.find (join dir name) = fs.find (join dir name) := by
  have hlookup : fs'.lookup place name = fs.lookup place name := by rw [lookup, lookup, he]
  rw [find, find, locate_join hfollow hname, locate_join hfollow' hname]
  by_cases hnul : '\x00' ∈ (join dir name).toList
  · rw [if_pos hnul]
  by_cases hlong : longestPath < (join dir name).utf8ByteSize
  · rw [if_neg hnul, if_pos hlong]
  rw [if_neg hnul, if_neg hlong]
  dsimp only
  rw [hlookup]

theorem filter_list_congr {entries entries' : List (String × FileEntry)}
    (hlist : fs.list dir = .ok entries) (hlist' : fs'.list dir = .ok entries')
    (hdir : fs.directory? dir = .ok place) (hdir' : fs'.directory? dir = .ok place)
    (hget : ∀ name, hasExtension name "policy" = true →
      fs'.entries.get? (place ++ [name]) = fs.entries.get? (place ++ [name])) :
    (entries'.filter fun e => hasExtension e.1 "policy") =
      entries.filter fun e => hasExtension e.1 "policy" := by
  obtain ⟨_, hplace, hmem⟩ := mem_of_list hlist
  obtain ⟨_, hplace', hmem'⟩ := mem_of_list hlist'
  obtain rfl := Except.ok.inj (hdir.symm.trans hplace)
  obtain rfl := Except.ok.inj (hdir'.symm.trans hplace')
  have hsorted := (pairwise_of_list hlist).filter fun e => hasExtension e.1 "policy"
  have hsorted' := (pairwise_of_list hlist').filter fun e => hasExtension e.1 "policy"
  have hirrefl (e : String × FileEntry) : ¬e.1 < e.1 := String.lt_irrefl e.1
  have hnodup := hsorted.imp fun {a b} (h : a.1 < b.1) (he : a = b) => hirrefl b (he ▸ h)
  have hnodup' := hsorted'.imp fun {a b} (h : a.1 < b.1) (he : a = b) => hirrefl b (he ▸ h)
  have hperm : (entries'.filter fun e => hasExtension e.1 "policy").Perm
      (entries.filter fun e => hasExtension e.1 "policy") := by
    refine (List.perm_ext_iff_of_nodup hnodup' hnodup).2 fun e => ?_
    rw [List.mem_filter, List.mem_filter]
    refine and_congr_left fun hpolicy => ?_
    rw [hmem, hmem', hget e.1 hpolicy]
  refine hperm.eq_of_pairwise (fun a b _ _ hab hba => ?_) hsorted' hsorted
  exact absurd (String.lt_trans hab hba) (hirrefl a)

section Policies

variable (hdir : fs.directory? dir = .ok place) (hdir' : fs'.directory? dir = .ok place)
variable (hget : ∀ name, hasExtension name "policy" = true →
  fs'.entries.get? (place ++ [name]) = fs.entries.get? (place ++ [name]))

include hdir hdir' hget

theorem policySources_congr : Build.policySources fs' dir = Build.policySources fs dir := by
  obtain ⟨entries, hlist⟩ : ∃ entries, fs.list dir = .ok entries := by
    rw [list, hdir]
    exact ⟨_, rfl⟩
  obtain ⟨entries', hlist'⟩ : ∃ entries', fs'.list dir = .ok entries' := by
    rw [list, hdir']
    exact ⟨_, rfl⟩
  have hfilter := filter_list_congr hlist hlist' hdir hdir' hget
  rw [Build.policySources, Build.policySources, hlist, hlist']
  exact congrArg (fun es => Except.ok (es.map fun e => join dir e.1)) hfilter

theorem readText_congr (hworking : fs'.working = fs.working) (hproper : fs.Proper)
    {paths : List String} (hpaths : Build.policySources fs dir = .ok paths) {path : String}
    (hpath : path ∈ paths) : fs'.readText path = fs.readText path := by
  rw [Build.policySources] at hpaths
  split at hpaths
  · cases hpaths
  next entries hlist =>
  cases hpaths
  obtain ⟨⟨name, e⟩, hmem, rfl⟩ := List.mem_map.1 hpath
  obtain ⟨hmem, hpolicy⟩ := List.mem_filter.1 hmem
  obtain ⟨there, hplace, hentries⟩ := mem_of_list hlist
  obtain rfl := Except.ok.inj (hdir.symm.trans hplace)
  have hentry := (hentries name e).1 hmem
  have hname : IsName name :=
    hproper _ (Table.contains_iff_mem_keys.1 (Option.isSome_of_eq_some hentry)) name
      (List.mem_append_right _ (List.mem_singleton_self name))
  have hfind := find_join_congr (follow_of_directory? hdir) (follow_of_directory? hdir') hname
    (entryAt?_eq_of_get? hworking (hget name hpolicy))
  rw [readText, readText, Files.read, Files.read, hfind]

end Policies

/-- Files in which the policy files two below a place are the same. -/
structure Agrees (root : List String) (fs fs' : Files) : Prop where
  keeps : fs.Keeps fs'
  policy : ∀ guild name, hasExtension name "policy" = true →
    fs'.entries.get? (root ++ [guild, name]) = fs.entries.get? (root ++ [guild, name])

/-- A path to a directory of a guild, by the path to the directory that all of these are in. -/
structure GuildDir (fs : Files) (sources : String) (root : List String) (dir : String) : Prop where
  above : fs.directory? sources = .ok root
  named : ∃ name, dir = join sources name ∧ IsName name ∧
    fs.entryAt? (root ++ [name]) = some .directory

theorem place_of_join (hdir : fs.directory? dir = .ok root) (hname : IsName name)
    (hplace : fs.directory? (join dir name) = .ok place) : place = root ++ [name] := by
  have hwalk := walk_of_follow (follow_of_directory? hplace)
  have hstart : fs.start (join dir name) = fs.start dir := by
    rw [start, start, isAbsolute_join dir hname]
  rw [hstart, names_join dir hname, walk_concat hname.ne_dots,
    walk_of_follow (follow_of_directory? hdir)] at hwalk
  exact hwalk.symm

theorem GuildDir.place_eq {sources : String} (h : fs.GuildDir sources root dir)
    (hplace : fs.directory? dir = .ok place) : ∃ name, place = root ++ [name] := by
  obtain ⟨name, rfl, hname, -⟩ := h.named
  exact ⟨name, place_of_join h.above hname hplace⟩

namespace Agrees

theorem refl (root : List String) (fs : Files) : Agrees root fs fs :=
  ⟨.refl fs, fun _ _ _ => rfl⟩

variable {sources : String}

theorem directory?_eq (h : Agrees root fs fs') (hdir : fs.GuildDir sources root dir) :
    fs'.directory? dir = fs.directory? dir := by
  obtain ⟨name, rfl, hname, he⟩ := hdir.named
  have hfollow := follow_of_directory? hdir.above
  have hfollow' : fs'.follow (fs'.start sources) (names sources) = .ok root := by
    rw [start, h.keeps.working]
    exact h.keeps.follow hfollow
  have hfind := find_join_congr hfollow hfollow' hname ((h.keeps.directory _ he).trans he.symm)
  rw [directory?, directory?, hfind]

theorem get?_eq (h : Agrees root fs fs') (hdir : fs.GuildDir sources root dir)
    (hplace : fs.directory? dir = .ok place) (hname : hasExtension name "policy" = true) :
    fs'.entries.get? (place ++ [name]) = fs.entries.get? (place ++ [name]) := by
  obtain ⟨guild, rfl⟩ := hdir.place_eq hplace
  rw [List.append_assoc]
  exact h.policy guild name hname

theorem policySources_eq (h : Agrees root fs fs') (hdir : fs.GuildDir sources root dir) :
    Build.policySources fs' dir = Build.policySources fs dir := by
  have hdirectory := h.directory?_eq hdir
  cases hplace : fs.directory? dir with
  | error f =>
    rw [Build.policySources, Build.policySources, list, list, hdirectory, hplace]
  | ok place =>
    exact policySources_congr hplace (hdirectory.trans hplace) fun _ => h.get?_eq hdir hplace

theorem readText_eq (h : Agrees root fs fs') (hproper : fs.Proper)
    (hdir : fs.GuildDir sources root dir) {paths : List String}
    (hpaths : Build.policySources fs dir = .ok paths) {path : String} (hpath : path ∈ paths) :
    fs'.readText path = fs.readText path := by
  have hdirectory := h.directory?_eq hdir
  cases hplace : fs.directory? dir with
  | error f =>
    rw [Build.policySources, list, hplace] at hpaths
    cases hpaths
  | ok place =>
    exact readText_congr hplace (hdirectory.trans hplace) (fun _ => h.get?_eq hdir hplace)
      h.keeps.working hproper hpaths hpath

end Agrees

end Files

end GuildPolicy
