import GuildPolicy.Files.Basic

namespace GuildPolicy.Files

variable {fs fs' : Files} {path : String} {bytes : List UInt8}

/-- Every directory of `fs` is one of `fs'`. -/
structure Keeps (fs fs' : Files) : Prop where
  working : fs'.working = fs.working
  directory : ∀ place, fs.entryAt? place = some .directory → fs'.entryAt? place = some .directory

theorem Keeps.refl (fs : Files) : fs.Keeps fs := ⟨rfl, fun _ h => h⟩

theorem Keeps.trans {fs'' : Files} (h : fs.Keeps fs') (h' : fs'.Keeps fs'') : fs.Keeps fs'' :=
  ⟨h'.working.trans h.working, fun place hp => h'.directory place (h.directory place hp)⟩

theorem lookup_eq_ok_iff {dir : List String} {name : String} {e : Option FileEntry} :
    fs.lookup dir name = .ok e ↔
      ¬longestName < name.utf8ByteSize ∧ fs.entryAt? (dir ++ [name]) = e := by
  rw [lookup]
  split
  · next hlong => exact ⟨nofun, fun h => absurd hlong h.1⟩
  · next hlong =>
    rw [Except.ok.injEq]
    exact ⟨fun h => ⟨hlong, h⟩, fun h => h.2⟩

theorem Keeps.lookup (h : fs.Keeps fs') {dir : List String} {name : String}
    (hl : fs.lookup dir name = .ok (some .directory)) :
    fs'.lookup dir name = .ok (some .directory) := by
  rw [lookup_eq_ok_iff] at hl ⊢
  exact ⟨hl.1, h.directory _ hl.2⟩

theorem Keeps.follow (h : fs.Keeps fs') {here place names : List String}
    (hf : fs.follow here names = .ok place) : fs'.follow here names = .ok place := by
  induction names generalizing here with
  | nil => exact hf
  | cons name names ih =>
    rw [Files.follow] at hf ⊢
    by_cases hup : name = ".."
    · rw [if_pos hup] at hf ⊢
      exact ih hf
    · rw [if_neg hup] at hf ⊢
      split at hf
      · cases hf
      · next hl =>
        rw [h.lookup hl]
        exact ih hf
      · cases hf
      · cases hf

theorem Keeps.locate (h : fs.Keeps fs') {spot : Spot} (hl : fs.locate path = .ok spot) :
    fs'.locate path = .ok spot := by
  have hstart : fs'.start path = fs.start path := by rw [start, start, h.working]
  unfold Files.locate at hl ⊢
  split at hl
  · cases hl
  next hnul =>
  split at hl
  · cases hl
  next hempty =>
  split at hl
  · cases hl
  next hlong =>
  rw [if_neg hnul, if_neg hempty, if_neg hlong, hstart]
  dsimp only at hl ⊢
  split at hl
  · split at hl
    · next hf =>
      rw [h.follow hf]
      exact hl
    · cases hl
  · split at hl
    · next hf =>
      rw [h.follow hf]
      exact hl
    · cases hl

/-- Where a path leads to a name under which there may be a file. -/
structure Leads (fs : Files) (path : String) (place : List String) : Prop where
  named : ∃ dir name, place = dir ++ [name] ∧ fs.locate path = .ok (.named dir name false) ∧
    ¬longestName < name.utf8ByteSize
  entry : fs.entryAt? place ≠ some .directory

theorem Leads.notPrefix {place : List String} (h : fs.Leads path place) :
    place.isPrefixOf fs.working = false := by
  rw [Bool.eq_false_iff]
  intro hp
  exact h.entry (if_pos hp)

theorem Leads.read {place : List String} (h : fs.Leads path place)
    (he : fs.entryAt? place = some (.file bytes)) : fs.read path = .ok bytes := by
  obtain ⟨dir, name, rfl, hl, hlong⟩ := h.named
  have hfind : fs.find path = .ok (dir ++ [name], .file bytes) := by
    rw [find, hl]
    dsimp only
    rw [lookup, if_neg hlong, he]
    rfl
  rw [Files.read, hfind]

theorem Leads.keeps_put {place : List String} (h : fs.Leads path place) :
    fs.Keeps (fs.put place (.file bytes)) := by
  refine ⟨rfl, fun p hp => ?_⟩
  rw [entryAt?] at hp ⊢
  split at hp
  · next hpre => exact if_pos hpre
  · next hpre =>
    change (if p.isPrefixOf fs.working then _ else (fs.entries.insert place _).get? p) = _
    rw [if_neg hpre]
    by_cases heq : place = p
    · subst heq
      exact absurd ((if_neg hpre).trans hp) h.entry
    · rw [Table.get?_insert_of_ne heq, hp]

theorem Leads.read_put {place : List String} (h : fs.Leads path place) :
    (fs.put place (.file bytes)).read path = .ok bytes := by
  have he : Files.entryAt? (fs.put place (.file bytes)) place = some (.file bytes) := by
    change (if place.isPrefixOf fs.working then _ else (fs.entries.insert place _).get? place) = _
    rw [h.notPrefix, Table.get?_insert_self]
    rfl
  obtain ⟨dir, name, hplace, hl, hlong⟩ := h.named
  have h' : (fs.put place (.file bytes)).Leads path place :=
    ⟨⟨dir, name, hplace, h.keeps_put.locate hl, hlong⟩, by rw [he]; exact nofun⟩
  exact h'.read he

theorem leads_of_write (h : fs.write path bytes = .ok fs') :
    ∃ place, fs.Leads path place ∧ fs' = fs.put place (.file bytes) := by
  rw [write] at h
  split at h
  · cases h
  · cases h
  · cases h
  next dir name hl =>
  split at h
  · cases h
  · cases h
  next e hne he =>
  cases h
  obtain ⟨hlong, he⟩ := lookup_eq_ok_iff.1 he
  refine ⟨_, ⟨⟨dir, name, rfl, hl, hlong⟩, fun hd => hne ?_⟩, rfl⟩
  rw [← he, hd]

theorem keeps_of_write (h : fs.write path bytes = .ok fs') : fs.Keeps fs' := by
  obtain ⟨place, hl, rfl⟩ := leads_of_write h
  exact hl.keeps_put

theorem entryAt?_of_erase {place p : List String} {e : FileEntry}
    (h : Files.entryAt? (fs.erase place) p = some e) : fs.entryAt? p = some e := by
  change (if p.isPrefixOf fs.working then _ else (fs.entries.erase place).get? p) = _ at h
  rw [entryAt?]
  split
  · next hpre => rwa [if_pos hpre] at h
  · next hpre =>
    rw [if_neg hpre, Table.get?_erase] at h
    split at h
    · cases h
    · exact h

theorem get?_drop {place p : List String} (h : ¬place <+: p) :
    (fs.drop place.isPrefixOf).entries.get? p = fs.entries.get? p := by
  have hkept : (!place.isPrefixOf p) = true := by
    rw [Bool.not_eq_true', ← Bool.not_eq_true, List.isPrefixOf_iff_prefix]
    exact h
  rw [drop, Table.get?_filter]
  cases fs.entries.get? p with
  | none => rfl
  | some e => exact if_pos hkept

theorem Leads.keeps_erase {place : List String} (h : fs.Leads path place) :
    fs.Keeps (fs.erase place) := by
  refine ⟨rfl, fun p hp => ?_⟩
  change (if p.isPrefixOf fs.working then _ else (fs.entries.erase place).get? p) = _
  rw [entryAt?] at hp
  split at hp
  · next hpre => exact if_pos hpre
  · next hpre =>
    rw [if_neg hpre, Table.get?_erase]
    split
    · next heq =>
      subst heq
      exact absurd ((if_neg hpre).trans hp) h.entry
    · exact hp

theorem read_write (h : fs.write path bytes = .ok fs') : fs'.read path = .ok bytes := by
  obtain ⟨place, hl, rfl⟩ := leads_of_write h
  exact hl.read_put

theorem leads_of_rename {source : String} (h : fs.rename source path = .ok fs') :
    ∃ src place bytes, fs.Leads source src ∧ fs.entryAt? src = some (.file bytes) ∧
      fs.Leads path place ∧ fs' = (fs.erase src).put place (.file bytes) := by
  rw [rename] at h
  split at h
  · cases h
  · cases h
  · next dir name slash dir' name' slash' hsrc hplace =>
    split at h
    · cases h
    · cases h
    · cases h
    · cases h
    next bytes there hfile hthere =>
    split at h
    · cases h
    next hslash =>
    split at h
    · cases h
    next hdir =>
    cases h
    rw [Bool.or_eq_true, not_or, Bool.not_eq_true, Bool.not_eq_true] at hslash
    obtain ⟨rfl, rfl⟩ := hslash
    obtain ⟨hlong, he⟩ := lookup_eq_ok_iff.1 hfile
    obtain ⟨hlong', he'⟩ := lookup_eq_ok_iff.1 hthere
    refine ⟨_, _, bytes, ⟨⟨dir, name, rfl, hsrc, hlong⟩, ?_⟩, he,
      ⟨⟨dir', name', rfl, hplace, hlong'⟩, ?_⟩, rfl⟩
    · rw [he]
      exact nofun
    · rw [he']
      exact hdir
  · cases h

theorem Leads.erase {source : String} {src place : List String} (hsrc : fs.Leads source src)
    (hl : fs.Leads path place) : (fs.erase src).Leads path place := by
  obtain ⟨dir, name, hplace, hloc, hlong⟩ := hl.named
  exact ⟨⟨dir, name, hplace, hsrc.keeps_erase.locate hloc, hlong⟩,
    fun hd => hl.entry (entryAt?_of_erase hd)⟩

theorem read_rename {source : String} (h : fs.rename source path = .ok fs') :
    fs'.read path = fs.read source := by
  obtain ⟨src, place, bytes, hsrc, he, hl, rfl⟩ := leads_of_rename h
  rw [(hsrc.erase hl).read_put, hsrc.read he]

/-- After a file was replaced, its new bytes are read. -/
theorem read_replace (h : fs.replace path bytes = (fs', .ok ())) : fs'.read path = .ok bytes := by
  rw [replace] at h
  split at h
  · cases h
  · dsimp only at h
    split at h
    · cases h
    next hwrite =>
    split at h
    · cases h
    next hrename =>
    cases h
    rw [read_rename hrename, read_write hwrite]

end GuildPolicy.Files
