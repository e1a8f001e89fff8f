import GuildPolicy.Proofs.Files.Changes
import GuildPolicy.Proofs.Files.Listing

namespace GuildPolicy.Files

open GuildPolicy.Path

variable {fs fs' : Files} {path q name : String} {bytes : List UInt8}
variable {here place base ns ms : List String}

namespace Rooted

theorem above (h : fs.Rooted) (he : fs.entryAt? (place ++ [name]) ≠ none) :
    fs.entryAt? place = some .directory := by
  rw [entryAt?] at he
  split at he
  · next hpre =>
    exact entryAt?_of_prefix_working
      ((List.prefix_append place [name]).trans (List.isPrefixOf_iff_prefix.1 hpre))
  · have hkey : place ++ [name] ∈ fs.entries.keys := by
      rw [← Table.contains_iff_mem_keys, Table.contains, Option.isSome_iff_ne_none]
      exact he
    have hdir := h _ hkey
    rwa [List.dropLast_concat] at hdir

theorem none_below (h : fs.Rooted) (hnone : fs.entryAt? here = none) (ns : List String) :
    fs.entryAt? (here ++ ns) = none := by
  induction ns using List.reverseRecOn with
  | nil => rwa [List.append_nil]
  | append_singleton ns name ih =>
    by_contra he
    rw [← List.append_assoc] at he
    rw [h.above he] at ih
    cases ih

theorem directory_above (h : fs.Rooted) (hdir : fs.entryAt? (here ++ ns) = some .directory) :
    fs.entryAt? here = some .directory := by
  induction ns using List.reverseRecOn with
  | nil => rwa [List.append_nil] at hdir
  | append_singleton ns name ih =>
    rw [← List.append_assoc] at hdir
    have hne : fs.entryAt? (here ++ ns ++ [name]) ≠ none := by
      rw [hdir]
      exact Option.some_ne_none _
    exact ih (h.above hne)

/-- Names that lead down to a directory in one collection do so in any other that has it. -/
theorem follow (h : fs'.Rooted) (hup : ".." ∉ ns) (hfollow : fs.follow here ns = .ok place)
    (hdir : fs'.entryAt? place = some .directory) : fs'.follow here ns = .ok place := by
  induction ns generalizing here with
  | nil => exact hfollow
  | cons name ns ih =>
    have hplace : here ++ [name] ++ ns = place := by
      rw [List.append_assoc, List.singleton_append, ← walk_of_notMem hup, walk_of_follow hfollow]
    rw [List.mem_cons, not_or] at hup
    rw [Files.follow, if_neg (Ne.symm hup.1)] at hfollow ⊢
    have hhere : fs'.entryAt? (here ++ [name]) = some .directory :=
      h.directory_above (hplace.symm ▸ hdir)
    split at hfollow
    · cases hfollow
    · next hlookup =>
      rw [lookup, if_neg (lookup_eq_ok_iff.1 hlookup).1, hhere]
      exact ih hup.2 hfollow
    · cases hfollow
    · cases hfollow

theorem none_of_notFound (h : fs.Rooted) (hup : ".." ∉ ns)
    (hmissing : fs.follow here ns = .error .notFound) : fs.entryAt? (here ++ ns) = none := by
  induction ns generalizing here with
  | nil => cases hmissing
  | cons name ns ih =>
    rw [List.mem_cons, not_or] at hup
    have hbelow : here ++ [name] ++ ns = here ++ name :: ns := List.append_assoc ..
    rw [Files.follow, if_neg (Ne.symm hup.1)] at hmissing
    rw [← hbelow]
    split at hmissing
    · next hlookup =>
      cases hmissing
      rw [lookup] at hlookup
      split at hlookup
      · cases hlookup
      · cases hlookup
    · exact ih hup.2 hmissing
    · cases hmissing
    · next hlookup => exact h.none_below (lookup_eq_ok_iff.1 hlookup).2 ns

end Rooted

/-- A path goes down to a place from a directory that there is. -/
def Points (fs : Files) (path : String) (place : List String) : Prop :=
  ∃ ns ms base, names path = ns ++ ms ∧ fs.follow (fs.start path) ns = .ok base ∧ ".." ∉ ms ∧
    place = base ++ ms

namespace Points

theorem walk (h : fs.Points path place) : walk (fs.start path) (names path) = place := by
  obtain ⟨ns, ms, base, hnames, hfollow, hup, rfl⟩ := h
  rw [hnames, walk_append, walk_of_follow hfollow, walk_of_notMem hup]

theorem join (h : fs.Points path place) (hname : IsName name) :
    fs.Points (join path name) (place ++ [name]) := by
  obtain ⟨ns, ms, base, hnames, hfollow, hup, rfl⟩ := h
  refine ⟨ns, ms ++ [name], base, ?_, ?_, ?_, List.append_assoc ..⟩
  · rw [names_join path hname, hnames, List.append_assoc]
  · rwa [start, isAbsolute_join path hname]
  · rw [List.mem_append, List.mem_singleton, not_or]
    exact ⟨hup, hname.ne_dots.symm⟩

theorem keeps (h : fs.Points path place) (hk : fs.Keeps fs') : fs'.Points path place := by
  obtain ⟨ns, ms, base, hnames, hfollow, hup, rfl⟩ := h
  refine ⟨ns, ms, base, hnames, ?_, hup, rfl⟩
  rw [start, hk.working]
  exact hk.follow hfollow

/-- What is missing on the way to a place is above it. -/
theorem prefix_of_none (h : fs.Points path place) (hns : ns <+: names path)
    (hnone : fs.entryAt? (Files.walk (fs.start path) ns) = none) :
    Files.walk (fs.start path) ns <+: place := by
  obtain ⟨ns', ms, base, hnames, hfollow, hup, rfl⟩ := h
  rw [hnames] at hns
  rcases List.prefix_or_prefix_of_prefix hns (List.prefix_append ns' ms) with hns | ⟨ms', rfl⟩
  · rw [entry_of_follow (fun _ => entryAt?_of_prefix_start) hfollow hns] at hnone
    cases hnone
  · have hms : ms' <+: ms := (List.prefix_append_right_inj ns').1 hns
    rw [walk_append, walk_of_follow hfollow, walk_of_notMem fun hmem => hup (hms.subset hmem)]
    exact (List.prefix_append_right_inj _).2 hms

theorem directory_of_up (h : fs.Points path place) (hns : ns ++ [".."] <+: names path) :
    fs.entryAt? (Files.walk (fs.start path) ns) = some .directory := by
  obtain ⟨ns', ms, base, hnames, hfollow, hup, rfl⟩ := h
  refine entry_of_follow (fun _ => entryAt?_of_prefix_start) hfollow ?_
  rw [hnames] at hns
  rcases List.prefix_or_prefix_of_prefix hns (List.prefix_append ns' ms) with hns | hns'
  · exact (List.prefix_append ns [".."]).trans hns
  rcases List.prefix_concat_iff.1 hns' with rfl | ⟨t, rfl⟩
  · exact List.prefix_append ns [".."]
  · rw [List.append_assoc, List.prefix_append_right_inj] at hns
    exact absurd (hns.subset (List.mem_append_right t (List.mem_singleton_self _))) hup

theorem of_names (h : fs.Points path place) (habsolute : isAbsolute q = isAbsolute path)
    (hnames : names q = names path) : fs.Points q place := by
  rw [Points, hnames, start, habsolute]
  exact h

theorem common_of_prefix {ns' : List String} (hworking : fs'.working = fs.working)
    (hnames : names path = ns ++ ms) (hfollow : fs.follow (fs.start path) ns = .ok base)
    (hup : ".." ∉ ms) (hplace : place = base ++ ms) {base' : List String}
    (hfollow' : fs'.follow (fs'.start path) ns' = .ok base') (hns : ns <+: ns') :
    ∃ ns ms base, names path = ns ++ ms ∧ fs.follow (fs.start path) ns = .ok base ∧
      fs'.follow (fs'.start path) ns = .ok base ∧ ".." ∉ ms ∧ place = base ++ ms := by
  have hstart : fs'.start path = fs.start path := by rw [start, start, hworking]
  have hboth := follow_of_prefix hfollow' hns
  rw [hstart, walk_of_follow hfollow, ← hstart] at hboth
  exact ⟨ns, ms, base, hnames, hfollow, hboth, hup, hplace⟩

/-- If a path goes down to a place in two collections, it does so from a directory that both
have. -/
theorem common (h : fs.Points path place) (h' : fs'.Points path place)
    (hworking : fs'.working = fs.working) : ∃ ns ms base, names path = ns ++ ms ∧
      fs.follow (fs.start path) ns = .ok base ∧ fs'.follow (fs'.start path) ns = .ok base ∧
      ".." ∉ ms ∧ place = base ++ ms := by
  obtain ⟨ns, ms, base, hnames, hfollow, hup, hplace⟩ := h
  obtain ⟨ns', ms', base', hnames', hfollow', hup', hplace'⟩ := h'
  have hns : ns <+: names path := hnames ▸ List.prefix_append ns ms
  have hns' : ns' <+: names path := hnames' ▸ List.prefix_append ns' ms'
  rcases List.prefix_or_prefix_of_prefix hns hns' with hle | hle
  · exact common_of_prefix hworking hnames hfollow hup hplace hfollow' hle
  · obtain ⟨ns, ms, base, hnames, hfollow', hfollow, hup, hplace⟩ :=
      common_of_prefix hworking.symm hnames' hfollow' hup' hplace' hfollow hle
    exact ⟨ns, ms, base, hnames, hfollow, hfollow', hup, hplace⟩

theorem ends (h : fs.Points path place) (hends : fs.Ends path ns) : ns = place :=
  hends.place.symm.trans h.walk

end Points

/-- Two collections have the same file at a place, if there is one. -/
def SameFile (fs fs' : Files) (p : List String) : Prop :=
  ∀ bytes, fs.entryAt? p = some (.file bytes) ↔ fs'.entryAt? p = some (.file bytes)

/-- What keeps directories from being created name by name. -/
def barrier? (fs : Files) (here : List String) : List String → Option FileFault
  | [] => none
  | name :: names =>
    if longestName < name.utf8ByteSize then some .nameTooLong
    else
      match fs.entryAt? (here ++ [name]) with
      | some (.file _) => some (if names = [] then .alreadyExists else .notDirectory)
      | some .directory | none => fs.barrier? (here ++ [name]) names

theorem barrier?_congr (h : ∀ p, p <+: here ++ ms → fs.SameFile fs' p) :
    fs.barrier? here ms = fs'.barrier? here ms := by
  induction ms generalizing here with
  | nil => rfl
  | cons name ms ih =>
    have hbelow : here ++ [name] ++ ms = here ++ name :: ms := List.append_assoc ..
    have hsame : fs.SameFile fs' (here ++ [name]) := h _ (hbelow ▸ List.prefix_append ..)
    have hrest : fs.barrier? (here ++ [name]) ms = fs'.barrier? (here ++ [name]) ms :=
      ih (hbelow ▸ h)
    rw [barrier?, barrier?]
    split
    · rfl
    split
    · next bytes he => rw [(hsame bytes).1 he]
    · next he =>
      split
      · next bytes he' =>
        rw [(hsame bytes).2 he'] at he
        cases he
      · exact hrest
      · exact hrest
    · next he =>
      split
      · next bytes he' =>
        rw [(hsame bytes).2 he'] at he
        cases he
      · exact hrest
      · exact hrest

theorem barrier?_concat_of_none (h : fs.Rooted) (hnone : fs.entryAt? here = none) :
    fs.barrier? here (ms ++ [name]) = (fs.barrier? here ms).or
      (if longestName < name.utf8ByteSize then some .nameTooLong else none) := by
  induction ms generalizing here with
  | nil =>
    change fs.barrier? here [name] = _
    rw [barrier?, barrier?, h.none_below hnone]
    rfl
  | cons name' ms ih =>
    have hbelow := h.none_below hnone [name']
    rw [List.cons_append, barrier?, barrier?, hbelow]
    split
    · rfl
    · exact ih hbelow

/-- What is in the way of one more directory, by how far one gets to where it is to be. -/
theorem barrier?_concat (h : fs.Rooted) (hup : ".." ∉ ms) :
    fs.barrier? here (ms ++ [name]) =
      match fs.follow here ms with
      | .ok place => fs.barrier? place [name]
      | .error .notFound => (fs.barrier? here ms).or
          (if longestName < name.utf8ByteSize then some .nameTooLong else none)
      | .error f => some f := by
  induction ms generalizing here with
  | nil => rfl
  | cons name' ms ih =>
    rw [List.mem_cons, not_or] at hup
    rw [List.cons_append, barrier?, follow, if_neg (Ne.symm hup.1), lookup, barrier?]
    by_cases hlong : longestName < name'.utf8ByteSize
    · rw [if_pos hlong, if_pos hlong]
    rw [if_neg hlong, if_neg hlong, if_neg hlong]
    cases he : fs.entryAt? (here ++ [name']) with
    | none => exact barrier?_concat_of_none h he
    | some e =>
      cases e with
      | file bytes =>
        change some (if ms ++ [name] = [] then _ else _) = _
        rw [if_neg (List.append_ne_nil_of_right_ne_nil ms (List.cons_ne_nil name []))]
      | directory => exact ih hup.2

end GuildPolicy.Files
