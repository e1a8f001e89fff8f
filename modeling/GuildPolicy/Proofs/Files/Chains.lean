import GuildPolicy.Proofs.Files.Points

namespace GuildPolicy.Files

open GuildPolicy.Path

variable {fs fs' made made' : Files} {path q dir name file : String} {qs : List String}
variable {bytes : List UInt8} {here place base ns ms : List String}

/-- A path whose text keeps no one from following it. -/
structure Passable (path : String) : Prop where
  noNul : '\x00' ∉ path.toList
  nonempty : path ≠ ""
  short : ¬longestPath < path.utf8ByteSize

theorem Passable.of_begins (h : Passable path) (hq : q.toList <+: path.toList) (hne : q ≠ "") :
    Passable q := by
  refine ⟨fun hmem => h.noNul (hq.subset hmem), hne, fun hlong => h.short ?_⟩
  obtain ⟨rest, hrest⟩ := hq
  have hpath : path = q ++ String.ofList rest := by
    rw [← String.toList_inj, String.toList_append, String.toList_ofList, hrest]
  rw [hpath, String.utf8ByteSize_append]
  omega

theorem locate_of_named (h : Passable q) (hlast : lastName? q = some name) : fs.locate q =
    match fs.follow (fs.start q) (names q).dropLast with
    | .ok dir => .ok (.named dir name (endsInSlash q))
    | .error f => .error f := by
  rw [locate, if_neg h.noNul, if_neg h.nonempty, hlast]
  exact if_neg h.short

theorem directory?_of_follow (h : Passable q)
    (hfollow : fs.follow (fs.start q) (names q) = .ok place) : fs.directory? q = .ok place := by
  cases hlast : lastName? q with
  | none =>
    have hlocate : fs.locate q = .ok (.directory place) := by
      rw [locate, if_neg h.noNul, if_neg h.nonempty, if_neg h.short, hlast]
      dsimp only
      rw [hfollow]
    rw [directory?, find, hlocate]
  | some name =>
    obtain ⟨hnames, hup⟩ := names_of_lastName? hlast
    rw [hnames] at hfollow
    obtain ⟨dir, hdir, hlookup, rfl⟩ := follow_concat hup hfollow
    rw [directory?, find, locate_of_named h hlast, hdir]
    dsimp only
    rw [hlookup]

theorem makeDirectory_of_directory? (h : fs.directory? q = .ok place) :
    fs.makeDirectory q = .error .alreadyExists := by
  have hfind := find_of_directory? h
  rw [find] at hfind
  rw [makeDirectory]
  cases hlocate : fs.locate q with
  | error f =>
    rw [hlocate] at hfind
    cases hfind
  | ok spot =>
    rw [hlocate] at hfind
    cases spot with
    | directory place => rfl
    | named dir name slash =>
      dsimp only at hfind ⊢
      cases hlookup : fs.lookup dir name with
      | error f =>
        rw [hlookup] at hfind
        cases hfind
      | ok e =>
        rw [hlookup] at hfind
        cases e with
        | none => cases hfind
        | some e => rfl

theorem follow_of_makeDirectory (h : fs.makeDirectory q = .ok fs') :
    ∃ place, fs'.follow (fs'.start q) (names q) = .ok place := by
  obtain ⟨dir, name, slash, hlocate, hlookup, rfl⟩ := named_of_makeDirectory h
  obtain ⟨hlast, hfollow⟩ := named_of_locate hlocate
  obtain ⟨hnames, hup⟩ := names_of_lastName? hlast
  obtain ⟨hlong, he⟩ := lookup_eq_ok_iff.1 hlookup
  have hfollow' := (keeps_put_directory he).follow hfollow
  have hlookup' : Files.lookup (fs.put (dir ++ [name]) .directory) dir name =
      .ok (some .directory) := lookup_eq_ok_iff.2 ⟨hlong, entryAt?_put_self he⟩
  refine ⟨dir ++ [name], ?_⟩
  rw [hnames]
  change Files.follow _ (fs.start q) _ = _
  rw [follow_append hfollow', follow_singleton hup hlookup']

/-- Nothing in the way, or the fault that it causes. -/
def outcome : Option FileFault → Except FileFault Unit
  | none => .ok ()
  | some f => .error f

theorem makeChain_of_error {f : FileFault} (h : fs.makeDirectory q = .error f)
    (hf : f ≠ .notFound) : fs.makeChain (q :: qs) =
      (fs, if (fs.directory? q).isOk then .ok () else .error f) := by
  rw [makeChain, h]
  cases f with
  | notFound => exact absurd rfl hf
  | _ => rfl

theorem makeChain_of_directory? (h : fs.directory? q = .ok place) :
    fs.makeChain (q :: qs) = (fs, .ok ()) := by
  rw [makeChain_of_error (makeDirectory_of_directory? h) (by simp), h]
  rfl

theorem follow_of_makeChain (h : fs.makeChain (q :: qs) = (fs', .ok ())) :
    ∃ place, fs'.follow (fs'.start q) (names q) = .ok place := by
  have hsettle {made : Files} {f : FileFault}
      (hmade : (made, if (made.directory? q).isOk then Except.ok () else .error f) =
        (fs', .ok ())) : ∃ place, fs'.follow (fs'.start q) (names q) = .ok place := by
    cases hdir : made.directory? q with
    | error f =>
      rw [hdir] at hmade
      cases hmade
    | ok place =>
      rw [hdir] at hmade
      cases hmade
      exact ⟨place, follow_of_directory? hdir⟩
  rw [makeChain] at h
  split at h
  · next hmake =>
    cases h
    exact follow_of_makeDirectory hmake
  · split at h
    · cases h
    · split at h
      · next hmake =>
        cases h
        exact follow_of_makeDirectory hmake
      · exact hsettle h
  · exact hsettle h

theorem makeDirectory_of_named {slash : Bool} (h : fs.locate q = .ok (.named place name slash)) :
    fs.makeDirectory q =
      match fs.lookup place name with
      | .error f => .error f
      | .ok (some _) => .error .alreadyExists
      | .ok none => .ok (fs.put (place ++ [name]) .directory) := by
  rw [makeDirectory]
  exact h ▸ rfl

theorem makeChain_of_follow (h : Passable q) (hlast : lastName? q = some name)
    (hfollow : fs.follow (fs.start q) (names q).dropLast = .ok place) :
    (fs.makeChain (q :: qs)).2 = outcome (fs.barrier? place [name]) := by
  have hlocate : fs.locate q = .ok (.named place name (endsInSlash q)) := by
    rw [locate_of_named h hlast, hfollow]
  have hmake := makeDirectory_of_named hlocate
  rw [barrier?]
  by_cases hlong : longestName < name.utf8ByteSize
  · have hlookup : fs.lookup place name = .error .nameTooLong := if_pos hlong
    have hdir : fs.directory? q = .error .nameTooLong := by
      rw [directory?, find, hlocate]
      dsimp only
      rw [hlookup]
    rw [hlookup] at hmake
    rw [if_pos hlong, makeChain_of_error hmake (by simp), hdir]
    rfl
  rw [if_neg hlong]
  have hlookup : fs.lookup place name = .ok (fs.entryAt? (place ++ [name])) := if_neg hlong
  rw [hlookup] at hmake
  cases he : fs.entryAt? (place ++ [name]) with
  | none =>
    rw [he] at hmake
    rw [makeChain, hmake]
    rfl
  | some e =>
    rw [he] at hmake
    rw [he] at hlookup
    rw [makeChain_of_error hmake (by simp)]
    cases e with
    | directory =>
      have hdir : fs.directory? q = .ok (place ++ [name]) := by
        rw [directory?, find, hlocate]
        dsimp only
        rw [hlookup]
      rw [hdir]
      rfl
    | file bytes =>
      have hdir : fs.directory? q = .error .notDirectory := by
        rw [directory?, find, hlocate]
        dsimp only
        rw [hlookup]
        cases endsInSlash q with
        | false => rfl
        | true => rfl
      rw [hdir]
      rfl

/-- A directory in a missing one is created once the missing one was. -/
theorem makeChain_of_missing (hmissing : fs.makeDirectory q = .error .notFound)
    (hchain : fs.makeChain qs = (made, .ok ())) (hmade : made.makeDirectory q ≠ .error .notFound) :
    fs.makeChain (q :: qs) = made.makeChain (q :: qs) := by
  rw [makeChain, hmissing]
  dsimp only
  rw [hchain]
  dsimp only
  cases hmake : made.makeDirectory q with
  | ok fs' => rw [makeChain, hmake]
  | error f =>
    have hf : f ≠ .notFound := fun hf => hmade (hf ▸ hmake)
    rw [makeChain_of_error hmake hf]

theorem makeDirectory_ne_notFound (h : Passable q) (hlast : lastName? q = some name)
    (hfollow : fs.follow (fs.start q) (names q).dropLast = .ok place) :
    fs.makeDirectory q ≠ .error .notFound := by
  rw [makeDirectory, locate_of_named h hlast, hfollow]
  dsimp only
  rw [lookup]
  by_cases hlong : longestName < name.utf8ByteSize
  · rw [if_pos hlong]
    simp
  · rw [if_neg hlong]
    cases fs.entryAt? (place ++ [name]) with
    | none => simp
    | some e => simp

theorem none_of_makeChain (hqs : parents? path = some qs) (hmissing : fs.entryAt? here = none)
    (hbeyond : ∀ ns, ns <+: (names path).dropLast → walk (fs.start path) ns ≠ here) :
    Files.entryAt? (fs.makeChain qs).1 here = none := by
  have hchanges : fs.Changes (fs.makeChain qs).1 path fun _ => False :=
    changes_makeChain fun q hq => of_mem_parents? hqs hq
  rcases hchanges.entries here with hsame | hfalse | ⟨-, -, ns, hns, hwalk⟩
  · exact (entryAt?_eq_of_get? hchanges.keeps.working hsame).trans hmissing
  · exact hfalse.elim
  · exact absurd hwalk.symm (hbeyond ns hns)

theorem walk_ne_below {start : List String}
    (hdirs : ∀ p, p <+: start → fs.entryAt? p = some .directory)
    (hbase : fs.follow start ns = .ok base) (hup : ".." ∉ ms)
    (hmissing : fs.entryAt? (base ++ ms ++ [name]) = none) {ns' : List String}
    (hns' : ns' <+: ns ++ ms) : walk start ns' ≠ base ++ ms ++ [name] := by
  intro hwalk
  rcases List.prefix_or_prefix_of_prefix hns' (List.prefix_append ns ms) with hns' | ⟨t, rfl⟩
  · have hdir := entry_of_follow hdirs hbase hns'
    rw [hwalk, hmissing] at hdir
    cases hdir
  · have ht : t <+: ms := (List.prefix_append_right_inj ns).1 hns'
    rw [walk_append, walk_of_follow hbase, walk_of_notMem fun hmem => hup (ht.subset hmem),
      List.append_assoc, List.append_right_inj] at hwalk
    have hlength := ht.length_le
    rw [hwalk, List.length_append, List.length_singleton] at hlength
    omega

section Down

variable (hrooted : fs.Rooted) (hq : Passable q) (hlast : lastName? q = some name)
variable (hnames : names q = ns ++ (ms ++ [name])) (hup : ".." ∉ ms)
variable (hbase : fs.follow (fs.start q) ns = .ok base)

include hrooted hq hlast hnames hup hbase

theorem makeChain_snd_of_found (hfound : fs.follow base ms ≠ .error .notFound) :
    (fs.makeChain (q :: qs)).2 = outcome (fs.barrier? base (ms ++ [name])) := by
  have hfollow : fs.follow (fs.start q) (names q).dropLast = fs.follow base ms := by
    rw [hnames, ← List.append_assoc, List.dropLast_concat, follow_append hbase]
  rw [barrier?_concat hrooted hup]
  cases hms : fs.follow base ms with
  | ok place => exact makeChain_of_follow hq hlast (hfollow.trans hms)
  | error f =>
    have hf : f ≠ .notFound := by
      rintro rfl
      exact hfound hms
    have hlocate : fs.locate q = .error f := by rw [locate_of_named hq hlast, hfollow, hms]
    have hmake : fs.makeDirectory q = .error f := by rw [makeDirectory, hlocate]
    have hdir : fs.directory? q = .error f := by rw [directory?, find, hlocate]
    rw [makeChain_of_error hmake hf, hdir]
    cases f with
    | notFound => exact absurd rfl hf
    | _ => rfl

theorem makeChain_snd_of_missing (hmissing : fs.follow base ms = .error .notFound)
    (hqs : parents? q = some (path :: qs))
    (hchain : (fs.makeChain (path :: qs)).2 = outcome (fs.barrier? base ms)) :
    (fs.makeChain (q :: path :: qs)).2 = outcome (fs.barrier? base (ms ++ [name])) := by
  have hdrop : (names q).dropLast = ns ++ ms := by
    rw [hnames, ← List.append_assoc, List.dropLast_concat]
  have hmake : fs.makeDirectory q = .error .notFound := by
    rw [makeDirectory, locate_of_named hq hlast, hdrop, follow_append hbase, hmissing]
  have hnothing : fs.entryAt? (base ++ ms) = none := hrooted.none_of_notFound hup hmissing
  rw [barrier?_concat hrooted hup, hmissing]
  dsimp only
  cases hmade : fs.makeChain (path :: qs) with
  | mk made result =>
  rw [hmade] at hchain
  obtain rfl : result = outcome (fs.barrier? base ms) := hchain
  cases hbarrier : fs.barrier? base ms with
  | some f =>
    rw [hbarrier] at hmade
    rw [makeChain, hmake]
    dsimp only
    rw [hmade]
    rfl
  | none =>
    rw [hbarrier] at hmade
    obtain ⟨habove, -⟩ := of_parents?_eq_cons hqs
    have hworking : made.working = fs.working := by
      have hchanges : fs.Changes (fs.makeChain (path :: qs)).1 q fun _ => False :=
        changes_makeChain fun q' hq' => of_mem_parents? hqs hq'
      rw [hmade] at hchanges
      exact hchanges.keeps.working
    have hstart : made.start q = fs.start q := by rw [start, start, hworking]
    have hstart' : made.start path = fs.start q := by
      rw [start, start, hworking, habove.absolute]
    -- The shorter chain leads to where the directory is to be.
    obtain ⟨place, hfollow⟩ := follow_of_makeChain hmade
    rw [hstart', habove.names, hdrop] at hfollow
    have hplace : place = base ++ ms := by
      rw [← walk_of_follow hfollow, walk_append, walk_of_follow hbase, walk_of_notMem hup]
    subst hplace
    have hfollow' : made.follow (made.start q) (names q).dropLast = .ok (base ++ ms) := by
      rw [hstart, hdrop, hfollow]
    have hnone : fs.entryAt? (base ++ ms ++ [name]) = none := hrooted.none_below hnothing [name]
    have hstill : made.entryAt? (base ++ ms ++ [name]) = none := by
      have hstill := none_of_makeChain hqs hnone fun ns' hns' =>
        walk_ne_below (fun _ => entryAt?_of_prefix_start) hbase hup hnone (hdrop ▸ hns')
      rwa [hmade] at hstill
    rw [makeChain_of_missing hmake hmade (makeDirectory_ne_notFound hq hlast hfollow'),
      makeChain_of_follow hq hlast hfollow', barrier?, hstill]
    rfl

end Down

theorem makeChain_snd_of_shorter (hrooted : fs.Rooted) (hq : Passable q)
    (htrimmed : lastName? q = (names q).getLast?.filter (· ≠ "..")) (hnames : names q = ns ++ ms)
    (hbase : fs.follow (fs.start q) ns = .ok base) (hup : ".." ∉ ms)
    (hshorter : ∀ ms' name, ms = ms' ++ [name] → lastName? q = some name → ".." ∉ ms' →
      fs.follow base ms' = .error .notFound →
      (fs.makeChain (q :: qs)).2 = outcome (fs.barrier? base ms)) :
    (fs.makeChain (q :: qs)).2 = outcome (fs.barrier? base ms) := by
  rcases List.eq_nil_or_concat ms with rfl | ⟨ms, name, rfl⟩
  · -- The path leads to a directory that there is.
    rw [List.append_nil] at hnames
    rw [← hnames] at hbase
    rw [makeChain_of_directory? (directory?_of_follow hq hbase)]
    rfl
  rw [List.concat_eq_append] at hnames hup hshorter ⊢
  rw [List.mem_append, List.mem_singleton, not_or] at hup
  have hlast : lastName? q = some name := by
    rw [htrimmed, hnames, ← List.append_assoc, List.getLast?_concat]
    exact Option.filter_some_pos (decide_eq_true (Ne.symm hup.2))
  by_cases hmissing : fs.follow base ms = .error .notFound
  · exact hshorter ms name rfl hlast hup.1 hmissing
  · exact makeChain_snd_of_found hrooted hq hlast hnames hup.1 hbase hmissing

/-- What comes of creating the directories down to a place. -/
theorem makeChain_snd (hrooted : fs.Rooted) (hq : Passable q) (hqs : parents? q = some qs)
    (htrimmed : lastName? q = (names q).getLast?.filter (· ≠ "..")) (hnames : names q = ns ++ ms)
    (hbase : fs.follow (fs.start q) ns = .ok base) (hup : ".." ∉ ms) :
    (fs.makeChain (q :: qs)).2 = outcome (fs.barrier? base ms) := by
  induction qs generalizing q ms with
  | nil =>
    refine makeChain_snd_of_shorter hrooted hq htrimmed hnames hbase hup ?_
    rintro ms name rfl - - hmissing
    -- One name is all there is, so the directory is created where the path starts.
    have hlength := length_names_of_parents?_eq_nil hqs
    rw [hnames, List.length_append, List.length_append, List.length_singleton] at hlength
    obtain rfl : ms = [] := List.length_eq_zero_iff.1 (by omega)
    cases hmissing
  | cons q' qs ih =>
    refine makeChain_snd_of_shorter hrooted hq htrimmed hnames hbase hup ?_
    rintro ms name rfl hlast hup' hmissing
    obtain ⟨habove, hqs'⟩ := of_parents?_eq_cons hqs
    have hnames' : names q' = ns ++ ms := by
      rw [habove.names, hnames, ← List.append_assoc, List.dropLast_concat]
    have hbase' : fs.follow (fs.start q') ns = .ok base := by
      rwa [start, habove.absolute]
    have hchain := ih (hq.of_begins habove.begins habove.nonempty) hqs' habove.trimmed hnames'
      hbase' hup'
    exact makeChain_snd_of_missing hrooted hq hlast hnames hup' hbase hmissing hqs hchain

end GuildPolicy.Files
