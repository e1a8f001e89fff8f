import GuildPolicy.Proofs.Files.Chains
import GuildPolicy.Proofs.Outcome

namespace GuildPolicy.Files

open GuildPolicy.Path

variable {fs fs' : Files} {q dir file : String} {qs : List String} {bytes : List UInt8}
variable {place p : List String}

theorem makeChain_congr (hrooted : fs.Rooted) (hrooted' : fs'.Rooted)
    (hworking : fs'.working = fs.working) (h : fs.Points q place) (h' : fs'.Points q place)
    (hsame : ∀ p, p <+: place → fs.SameFile fs' p) (hne : q ≠ "") (hqs : parents? q = some qs)
    (htrimmed : lastName? q = (names q).getLast?.filter (· ≠ "..")) :
    (fs.makeChain (q :: qs)).2 = (fs'.makeChain (q :: qs)).2 := by
  have hfault {f : FileFault} (hlocate : ∀ fs : Files, fs.locate q = .error f) (hf : f ≠ .notFound)
      (fs : Files) : (fs.makeChain (q :: qs)).2 = .error f := by
    have hmake : fs.makeDirectory q = .error f := by rw [makeDirectory, hlocate]
    have hdir : fs.directory? q = .error f := by rw [directory?, find, hlocate]
    rw [makeChain_of_error hmake hf, hdir]
    rfl
  by_cases hnul : '\x00' ∈ q.toList
  · have hnul (fs : Files) : fs.locate q = .error .nulInName := by rw [locate, if_pos hnul]
    rw [hfault hnul (by simp), hfault hnul (by simp)]
  by_cases hlong : longestPath < q.utf8ByteSize
  · have hlong (fs : Files) : fs.locate q = .error .nameTooLong := by
      rw [locate, if_neg hnul, if_neg hne, if_pos hlong]
    rw [hfault hlong (by simp), hfault hlong (by simp)]
  obtain ⟨ns, ms, base, hnames, hbase, hbase', hup, rfl⟩ := h.common h' hworking
  have hq : Passable q := ⟨hnul, hne, hlong⟩
  rw [makeChain_snd hrooted hq hqs htrimmed hnames hbase hup,
    makeChain_snd hrooted' hq hqs htrimmed hnames hbase' hup, barrier?_congr hsame]

theorem names_of_parents?_join (hname : IsName file)
    (h : parents? (join dir file) = some (q :: qs)) :
    isAbsolute q = isAbsolute dir ∧ names q = names dir := by
  obtain ⟨habove, -⟩ := of_parents?_eq_cons h
  rw [habove.absolute, habove.names, isAbsolute_join dir hname, names_join dir hname,
    List.dropLast_concat]
  exact ⟨rfl, rfl⟩

theorem makeParents_congr (hrooted : fs.Rooted) (hrooted' : fs'.Rooted)
    (hworking : fs'.working = fs.working) (h : fs.Points dir place) (h' : fs'.Points dir place)
    (hsame : ∀ p, p <+: place → fs.SameFile fs' p) (hname : IsName file) :
    (fs.makeParents (join dir file)).2 = (fs'.makeParents (join dir file)).2 := by
  rw [makeParents_eq, makeParents_eq]
  split
  · next q qs hqs =>
    obtain ⟨habsolute, hnames⟩ := names_of_parents?_join hname hqs
    obtain ⟨habove, hqs⟩ := of_parents?_eq_cons hqs
    exact makeChain_congr hrooted hrooted' hworking (h.of_names habsolute hnames)
      (h'.of_names habsolute hnames) hsame habove.nonempty hqs habove.trimmed
  · rfl

theorem exists_follow_of_makeParents (hname : IsName file)
    (h : fs.makeParents (join dir file) = (fs', .ok ())) :
    ∃ place, fs'.follow (fs'.start dir) (names dir) = .ok place := by
  rw [makeParents_eq] at h
  cases hqs : parents? (join dir file) with
  | none =>
    have hnil := names_of_parents?_eq_none hqs
    rw [names_join dir hname] at hnil
    exact absurd hnil (List.append_ne_nil_of_right_ne_nil _ (List.cons_ne_nil _ _))
  | some qs =>
    rw [hqs] at h
    cases qs with
    | nil =>
      have hlength := length_names_of_parents?_eq_nil hqs
      rw [names_join dir hname, List.length_append, List.length_singleton] at hlength
      rw [List.length_eq_zero_iff.1 (by omega : (names dir).length = 0)]
      exact ⟨_, rfl⟩
    | cons q qs =>
      obtain ⟨habsolute, hnames⟩ := names_of_parents?_join hname hqs
      have hfollow := follow_of_makeChain h
      rwa [hnames, start, habsolute] at hfollow

theorem Points.follow_of_makeParents (h : fs.Points dir place) (hname : IsName file)
    (hmade : fs.makeParents (Path.join dir file) = (fs', .ok ())) :
    fs'.follow (fs'.start dir) (names dir) = .ok place := by
  have hchanges := changes_makeParents fs (Path.join dir file) fun _ => False
  rw [hmade] at hchanges
  obtain ⟨there, hfollow⟩ := exists_follow_of_makeParents hname hmade
  rw [hfollow, ← (h.keeps hchanges.keeps).walk, walk_of_follow hfollow]

theorem Points.entryAt?_makeParents (h : fs.Points dir place) (hname : IsName file)
    (other : String) :
    Files.entryAt? (fs.makeParents (Path.join dir file)).1 (place ++ [other]) =
      fs.entryAt? (place ++ [other]) := by
  have hchanges := changes_makeParents fs (Path.join dir file) fun _ => False
  rcases hchanges.entries (place ++ [other]) with hsame | hfalse | ⟨hnone, -, ns, hns, hwalk⟩
  · exact entryAt?_eq_of_get? hchanges.keeps.working hsame
  · exact hfalse.elim
  · rw [names_join dir hname, List.dropLast_concat] at hns
    rw [start, isAbsolute_join dir hname] at hwalk
    rw [hwalk] at hnone
    have hpre := (h.prefix_of_none hns hnone).length_le
    have hlength := congrArg List.length hwalk
    rw [List.length_append, List.length_singleton] at hlength
    rw [start] at hpre
    omega

theorem entryAt?_congr {made made' : Files} (hworking : fs'.working = fs.working)
    (hmade : made.working = fs.working) (hmade' : made'.working = fs'.working)
    (hget : fs.entries.get? p = fs'.entries.get? p → made.entries.get? p = made'.entries.get? p)
    (h : fs.entryAt? p = fs'.entryAt? p) : made.entryAt? p = made'.entryAt? p := by
  rw [entryAt?, entryAt?, hworking] at h
  rw [entryAt?, entryAt?, hmade, hmade', hworking]
  split
  · rfl
  · next hpre =>
    rw [if_neg hpre, if_neg hpre] at h
    exact hget h

theorem entryAt?_put_congr (place : List String) (e : FileEntry)
    (hworking : fs'.working = fs.working) (h : fs.entryAt? p = fs'.entryAt? p) :
    Files.entryAt? (fs.put place e) p = Files.entryAt? (fs'.put place e) p := by
  refine entryAt?_congr hworking rfl rfl (fun hget => ?_) h
  change (fs.entries.insert place e).get? p = (fs'.entries.insert place e).get? p
  rw [Table.get?_insert, Table.get?_insert, hget]

theorem entryAt?_erase_congr (place : List String) (hworking : fs'.working = fs.working)
    (h : fs.entryAt? p = fs'.entryAt? p) :
    Files.entryAt? (fs.erase place) p = Files.entryAt? (fs'.erase place) p := by
  refine entryAt?_congr hworking rfl rfl (fun hget => ?_) h
  change (fs.entries.erase place).get? p = (fs'.entries.erase place).get? p
  rw [Table.get?_erase, Table.get?_erase, hget]

theorem write_congr (hfollow : fs.follow (fs.start dir) (names dir) = .ok place)
    (hfollow' : fs'.follow (fs'.start dir) (names dir) = .ok place) (hname : IsName file)
    (he : fs.entryAt? (place ++ [file]) = fs'.entryAt? (place ++ [file])) :
    (∃ f, fs.write (join dir file) bytes = .error f ∧ fs'.write (join dir file) bytes = .error f) ∨
      fs.write (join dir file) bytes = .ok (fs.put (place ++ [file]) (.file bytes)) ∧
      fs'.write (join dir file) bytes = .ok (fs'.put (place ++ [file]) (.file bytes)) := by
  rw [write, write, locate_join hfollow hname, locate_join hfollow' hname]
  by_cases hnul : '\x00' ∈ (join dir file).toList
  · rw [if_pos hnul]
    exact .inl ⟨_, rfl, rfl⟩
  by_cases hlong : longestPath < (join dir file).utf8ByteSize
  · rw [if_neg hnul, if_pos hlong]
    exact .inl ⟨_, rfl, rfl⟩
  rw [if_neg hnul, if_neg hlong]
  dsimp only
  rw [lookup, lookup, he]
  by_cases hlong' : longestName < file.utf8ByteSize
  · rw [if_pos hlong']
    exact .inl ⟨_, rfl, rfl⟩
  rw [if_neg hlong']
  cases fs'.entryAt? (place ++ [file]) with
  | none => exact .inr ⟨rfl, rfl⟩
  | some e =>
    cases e with
    | file _ => exact .inr ⟨rfl, rfl⟩
    | directory => exact .inl ⟨_, rfl, rfl⟩

theorem rename_congr {source : String}
    (hfollow : fs.follow (fs.start dir) (names dir) = .ok place)
    (hfollow' : fs'.follow (fs'.start dir) (names dir) = .ok place)
    (hsource : IsName source) (hname : IsName file)
    (hes : fs.entryAt? (place ++ [source]) = fs'.entryAt? (place ++ [source]))
    (he : fs.entryAt? (place ++ [file]) = fs'.entryAt? (place ++ [file])) :
    (∃ f, fs.rename (join dir source) (join dir file) = .error f ∧
      fs'.rename (join dir source) (join dir file) = .error f) ∨
    ∃ bytes, fs.rename (join dir source) (join dir file) =
        .ok ((fs.erase (place ++ [source])).put (place ++ [file]) (.file bytes)) ∧
      fs'.rename (join dir source) (join dir file) =
        .ok ((fs'.erase (place ++ [source])).put (place ++ [file]) (.file bytes)) := by
  have hlocate {name : String} (h : IsName name) :
      (∃ f, fs.locate (join dir name) = .error f ∧ fs'.locate (join dir name) = .error f) ∨
      fs.locate (join dir name) = .ok (.named place name false) ∧
        fs'.locate (join dir name) = .ok (.named place name false) := by
    rw [locate_join hfollow h, locate_join hfollow' h]
    split
    · exact .inl ⟨_, rfl, rfl⟩
    · split
      · exact .inl ⟨_, rfl, rfl⟩
      · exact .inr ⟨rfl, rfl⟩
  rw [rename, rename]
  rcases hlocate hsource with ⟨f, hs, hs'⟩ | ⟨hs, hs'⟩
  · rw [hs, hs']
    exact .inl ⟨f, rfl, rfl⟩
  rcases hlocate hname with ⟨f, hf, hf'⟩ | ⟨hf, hf'⟩
  · rw [hs, hs', hf, hf']
    exact .inl ⟨f, rfl, rfl⟩
  rw [hs, hs', hf, hf']
  dsimp only
  have hlookup : fs'.lookup place source = fs.lookup place source := by rw [lookup, lookup, hes]
  have hlookup' : fs'.lookup place file = fs.lookup place file := by rw [lookup, lookup, he]
  rw [hlookup, hlookup']
  cases fs.lookup place source with
  | error f => exact .inl ⟨f, rfl, rfl⟩
  | ok e =>
    cases e with
    | none => exact .inl ⟨_, rfl, rfl⟩
    | some e =>
      cases fs.lookup place file with
      | error f =>
        cases e with
        | file bytes => exact .inl ⟨f, rfl, rfl⟩
        | directory => exact .inl ⟨f, rfl, rfl⟩
      | ok there =>
        cases e with
        | directory => exact .inl ⟨_, rfl, rfl⟩
        | file bytes =>
          simp only [Bool.or_self, Bool.false_eq_true, if_false]
          by_cases hdir : there = some .directory
          · rw [if_pos hdir, if_pos hdir]
            exact .inl ⟨_, rfl, rfl⟩
          · rw [if_neg hdir, if_neg hdir]
            exact .inr ⟨bytes, rfl, rfl⟩

/-- What is read at a path that goes down to a place is what is at the place. -/
theorem Points.read (hworking : fs'.working = fs.working) (h : fs.Points dir place)
    (h' : fs'.Points dir place) (hrooted' : fs'.Rooted) (hname : IsName file)
    (he : fs'.entryAt? (place ++ [file]) = fs.entryAt? (place ++ [file]))
    (hr : fs.read (Path.join dir file) = .ok bytes) :
    fs'.read (Path.join dir file) = .ok bytes := by
  obtain ⟨there, hl, hthere⟩ := leads_of_read hr
  obtain rfl : there = place ++ [file] := (h.join hname).ends hl.ends
  obtain ⟨parent, name, hparent, hlocate, hlong⟩ := hl.named
  obtain ⟨rfl, hfile⟩ := List.append_inj' hparent rfl
  obtain rfl := List.singleton_inj.1 hfile
  rw [hthere] at he
  obtain ⟨-, hfollow⟩ := named_of_locate hlocate
  rw [names_join dir hname, List.dropLast_concat, start, isAbsolute_join dir hname, ← start]
    at hfollow
  have hfollow' : fs'.follow (fs'.start dir) (names dir) = .ok place := by
    obtain ⟨ns, ms, base, hnames, hbase, hbase', hup, rfl⟩ := h.common h' hworking
    rw [hnames, follow_append hbase] at hfollow
    rw [hnames, follow_append hbase']
    exact hrooted'.follow hup hfollow (hrooted'.above (he ▸ Option.some_ne_none _))
  rw [locate_join hfollow hname, ← locate_join hfollow' hname] at hlocate
  refine Leads.read ⟨⟨place, file, rfl, hlocate, hlong⟩, ?_⟩ he
  rw [he]
  simp

theorem Points.toOption_read (hworking : fs'.working = fs.working) (hrooted : fs.Rooted)
    (hrooted' : fs'.Rooted) (h : fs.Points dir place) (h' : fs'.Points dir place)
    (hname : IsName file) (he : fs'.entryAt? (place ++ [file]) = fs.entryAt? (place ++ [file])) :
    (fs'.read (Path.join dir file)).toOption = (fs.read (Path.join dir file)).toOption := by
  refine Option.ext fun bytes => ?_
  rw [toOption_eq_some_iff, toOption_eq_some_iff]
  exact ⟨h'.read hworking.symm h hrooted hname he.symm, h.read hworking h' hrooted' hname he⟩

/-- What replacing a file changes: the file if all is done, the one beside it, and directories that
are missing. -/
theorem Points.entryAt?_replace (h : fs.Points dir place) (bytes : List UInt8)
    (hname : IsName file) (hbeside : IsName (file ++ ".tmp")) (p : List String) :
    Files.entryAt? (fs.replace (Path.join dir file) bytes).1 p = fs.entryAt? p ∨
    ((fs.replace (Path.join dir file) bytes).2 = .ok () ∧ p = place ++ [file]) ∨
    p = place ++ [file ++ ".tmp"] ∨
    fs.entryAt? p = none ∧
      Files.entryAt? (fs.replace (Path.join dir file) bytes).1 p = some .directory ∧
      p <+: place := by
  have hchanges := changes_replace fs (Path.join dir file) bytes
  rcases hchanges.entries p with hsame | (⟨hdone, hends⟩ | hends) | ⟨hnone, hdir, ns, hns, hwalk⟩
  · exact .inl (entryAt?_eq_of_get? hchanges.keeps.working hsame)
  · exact .inr (.inl ⟨hdone, (h.join hname).ends hends⟩)
  · rw [join_append dir ".tmp" hname] at hends
    exact .inr (.inr (.inl ((h.join hbeside).ends hends)))
  · rw [names_join dir hname, List.dropLast_concat] at hns
    rw [start, isAbsolute_join dir hname, ← start] at hwalk
    subst hwalk
    exact .inr (.inr (.inr ⟨hnone, hdir, h.prefix_of_none hns hnone⟩))

/-- What comes of replacing a file, and what is there and beside it afterwards. -/
theorem replace_congr (bytes : List UInt8) (hrooted : fs.Rooted) (hrooted' : fs'.Rooted)
    (hworking : fs'.working = fs.working) (h : fs.Points dir place) (h' : fs'.Points dir place)
    (hsame : ∀ p, p <+: place → fs.SameFile fs' p) (hname : IsName file)
    (hbeside : IsName (file ++ ".tmp"))
    (he : ∀ name, name = file ∨ name = file ++ ".tmp" →
      fs.entryAt? (place ++ [name]) = fs'.entryAt? (place ++ [name])) :
    (fs.replace (join dir file) bytes).2 = (fs'.replace (join dir file) bytes).2 ∧
    ∀ name, name = file ∨ name = file ++ ".tmp" →
      Files.entryAt? (fs.replace (join dir file) bytes).1 (place ++ [name]) =
        Files.entryAt? (fs'.replace (join dir file) bytes).1 (place ++ [name]) := by
  have hparents := makeParents_congr hrooted hrooted' hworking h h' hsame hname
  have hmade := h.entryAt?_makeParents hname
  have hmade' := h'.entryAt?_makeParents hname
  have hchanges := changes_makeParents fs (join dir file) fun _ => False
  have hchanges' := changes_makeParents fs' (join dir file) fun _ => False
  rw [replace, replace]
  cases hm : fs.makeParents (join dir file) with
  | mk made result =>
  cases hm' : fs'.makeParents (join dir file) with
  | mk made' result' =>
  rw [hm, hm'] at hparents
  rw [hm] at hmade hchanges
  rw [hm'] at hmade' hchanges'
  obtain rfl : result = result' := hparents
  have he (name : String) (hn : name = file ∨ name = file ++ ".tmp") :
      made.entryAt? (place ++ [name]) = made'.entryAt? (place ++ [name]) :=
    (hmade name).trans ((he name hn).trans (hmade' name).symm)
  cases result with
  | error f => exact ⟨rfl, he⟩
  | ok =>
  dsimp only
  rw [join_append dir ".tmp" hname]
  have hfollow := h.follow_of_makeParents hname hm
  have hfollow' := h'.follow_of_makeParents hname hm'
  have hworking' : made'.working = made.working := by
    rw [hchanges'.keeps.working, hchanges.keeps.working, hworking]
  rcases write_congr hfollow hfollow' hbeside (he _ (.inr rfl)) with ⟨f, hw, hw'⟩ | ⟨hw, hw'⟩
  · rw [hw, hw']
    exact ⟨rfl, he⟩
  rw [hw, hw']
  dsimp only
  have hwritten (name : String) (hn : name = file ∨ name = file ++ ".tmp") :=
    entryAt?_put_congr (place ++ [file ++ ".tmp"]) (.file bytes) hworking' (he name hn)
  rcases rename_congr ((keeps_of_write hw).follow hfollow) ((keeps_of_write hw').follow hfollow')
    hbeside hname (hwritten _ (.inr rfl)) (hwritten _ (.inl rfl)) with
    ⟨f, hr, hr'⟩ | ⟨moved, hr, hr'⟩
  · rw [hr, hr']
    exact ⟨rfl, hwritten⟩
  · rw [hr, hr']
    exact ⟨rfl, fun name hn =>
      entryAt?_put_congr _ _ hworking' (entryAt?_erase_congr _ hworking' (hwritten name hn))⟩

end GuildPolicy.Files
