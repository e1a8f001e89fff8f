import GuildPolicy.Proofs.Files.Operations

namespace GuildPolicy.Files

variable {fs made : Files} {path source : String} {kept : List UInt8}

/-- What has become of some files at a moment of replacing the one at a path, which is `done` or
not. -/
structure Replacing (fs made : Files) (path : String) (bytes : List UInt8) (done : Prop) :
    Prop where
  /-- Once it is done, the new bytes are read and nothing is beside them. -/
  whole : done → made.read path = .ok bytes ∧ made.find (path ++ ".tmp") = .error .notFound
  kept : ¬done → ∀ kept, fs.read path = .ok kept → made.read path = .ok kept
  /-- Every other file is read as before, but for the one beside. -/
  others : ∀ other kept, fs.read other = .ok kept →
    (∀ p, fs.Ends other p → ¬fs.Touched path done p) → made.read other = .ok kept
  /-- Nothing is new but missing directories on the way to the path. -/
  changes : fs.Changes made path (fs.Touched path done)
  /-- If it is not done, there were preparations only; if it is, one more operation came last. -/
  prepared : ∃ prepared, Reaches (·.Prepares path) fs prepared ∧ (¬done → made = prepared) ∧
    (done → prepared.rename (path ++ ".tmp") path = .ok made)

theorem Changes.read_self (h : fs.Changes made path (fs.Touched path False))
    (hr : fs.read path = .ok kept) : made.read path = .ok kept := by
  obtain ⟨place, hl, -⟩ := leads_of_read hr
  apply h.read_of_not_touched hr
  rintro p hends (⟨hfalse, -⟩ | hbeside)
  · exact hfalse
  · obtain rfl := hends.unique hl.ends
    exact hl.not_ends_beside hbeside

theorem find_source_of_rename (h : fs.rename source path = .ok made)
    (hne : ∀ p, fs.Ends path p → ¬fs.Ends source p) : made.find source = .error .notFound := by
  obtain ⟨src, place, moved, hsrc, -, hplace, rfl⟩ := leads_of_rename h
  have hkeeps : fs.Keeps ((fs.erase src).put place (.file moved)) :=
    hsrc.keeps_erase.trans (hsrc.erase hplace).keeps_put
  have hplaces : place ≠ src := by
    rintro rfl
    exact hne place hplace.ends hsrc.ends
  have hnone : Files.entryAt? ((fs.erase src).put place (.file moved)) src = none := by
    change (if src.isPrefixOf fs.working then _
      else ((fs.entries.erase src).insert place _).get? src) = none
    rw [hsrc.notPrefix, Table.get?_insert_of_ne hplaces, Table.get?_erase, if_pos rfl]
    rfl
  obtain ⟨dir, name, hdir, hlocate, hlong⟩ := hsrc.named
  rw [find, hkeeps.locate hlocate]
  dsimp only
  rw [lookup, if_neg hlong, ← hdir, hnone]

/-- While there are preparations only, the file is as it was. -/
theorem replacing_of_reaches (bytes : List UInt8) (h : Reaches (·.Prepares path) fs made) :
    fs.Replacing made path bytes False where
  whole := False.elim
  kept _ _ hr := h.changes.read_self hr
  others _ _ hr hother := h.changes.read_of_not_touched hr hother
  changes := h.changes
  prepared := ⟨made, h, fun _ => rfl, False.elim⟩

theorem replacing_replace (fs : Files) (path : String) (bytes : List UInt8) :
    fs.Replacing (fs.replace path bytes).1 path bytes ((fs.replace path bytes).2 = .ok ()) := by
  obtain ⟨prepared, hprepared, ⟨e, he⟩ | ⟨hread, made, hrename, he⟩⟩ := fs.replace_cases path bytes
  · have hnot : (fs.replace path bytes).2 = .ok () ↔ False := by
      rw [he]
      simp
    rw [hnot, he]
    exact replacing_of_reaches bytes hprepared
  · have hchanges := changes_replace fs path bytes
    rw [he] at hchanges ⊢
    constructor
    case whole =>
      intro _
      refine ⟨(read_rename hrename).trans hread, find_source_of_rename hrename ?_⟩
      obtain ⟨-, place, -, -, -, hplace, -⟩ := leads_of_rename hrename
      intro p hends
      obtain rfl := hends.unique hplace.ends
      exact hplace.not_ends_beside
    case kept => exact fun hnot => absurd rfl hnot
    case others => exact fun other kept hr hother => hchanges.read_of_not_touched hr hother
    case changes => exact hchanges
    case prepared => exact ⟨prepared, hprepared, fun hnot => absurd rfl hnot, fun _ => hrename⟩

end GuildPolicy.Files
