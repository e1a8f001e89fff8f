import GuildPolicy.Proofs.Files.Parents
import GuildPolicy.Proofs.Files.Replace
import Mathlib.Data.List.Induction

namespace GuildPolicy.Files

open GuildPolicy.Path

variable {fs fs' fs'' : Files} {path q other name : String} {bytes : List UInt8}
variable {here place ns ms : List String}

/-- Where names lead, whether or not there is anything. -/
def walk (here : List String) : List String → List String
  | [] => here
  | name :: names =>
    if name = ".." then walk here.dropLast names else walk (here ++ [name]) names

theorem walk_append : walk here (ns ++ ms) = walk (walk here ns) ms := by
  induction ns generalizing here with
  | nil => rfl
  | cons name ns ih =>
    rw [List.cons_append, walk, walk]
    split
    · exact ih
    · exact ih

theorem walk_concat (h : name ≠ "..") : walk here (ns ++ [name]) = walk here ns ++ [name] := by
  rw [walk_append, walk, if_neg h]
  rfl

theorem walk_of_notMem (h : ".." ∉ ns) : walk here ns = here ++ ns := by
  induction ns generalizing here with
  | nil => exact (List.append_nil here).symm
  | cons name ns ih =>
    rw [List.mem_cons, not_or] at h
    rw [walk, if_neg (Ne.symm h.1), ih h.2, List.append_assoc, List.singleton_append]

theorem walk_of_follow (h : fs.follow here ns = .ok place) : walk here ns = place := by
  induction ns generalizing here with
  | nil => exact Except.ok.inj h
  | cons name ns ih =>
    rw [follow] at h
    rw [walk]
    split at h
    · next hup =>
      rw [if_pos hup]
      exact ih h
    · next hup =>
      rw [if_neg hup]
      split at h
      · cases h
      · exact ih h
      · cases h
      · cases h

/-- Names that do not go up from a place lead to what is below it. -/
theorem prefix_walk {p : List String} (hp : p <+: here)
    (hup : ∀ ms, ms ++ [".."] <+: ns → walk here ms ≠ p) : p <+: walk here ns := by
  induction ns generalizing here with
  | nil => exact hp
  | cons name ns ih =>
    have hrest (ms : List String) (hms : ms ++ [".."] <+: ns) : walk here (name :: ms) ≠ p :=
      hup (name :: ms) (List.cons_prefix_cons.2 ⟨rfl, hms⟩)
    simp only [walk] at hrest ⊢
    split at hrest
    · next hname =>
      subst hname
      rw [if_pos rfl]
      have hne : here ≠ p := hup [] (List.prefix_append [".."] ns)
      refine ih ?_ hrest
      cases here using List.reverseRecOn with
      | nil => exact hp
      | append_singleton above last =>
        rw [List.dropLast_concat]
        exact (List.prefix_concat_iff.1 hp).resolve_left hne.symm
    · next hname =>
      rw [if_neg hname]
      exact ih (hp.trans (List.prefix_append here [name])) hrest

theorem entryAt?_of_prefix_working {p : List String} (h : p <+: fs.working) :
    fs.entryAt? p = some .directory :=
  if_pos (List.isPrefixOf_iff_prefix.2 h)

theorem entryAt?_of_prefix_start {p : List String} (h : p <+: fs.start path) :
    fs.entryAt? p = some .directory := by
  rw [start] at h
  split at h
  · rw [List.prefix_nil.1 h]
    exact entryAt?_of_prefix_working List.nil_prefix
  · exact entryAt?_of_prefix_working h

/-- A path that can be followed leads through directories. -/
theorem entry_of_follow (hhere : ∀ p, p <+: here → fs.entryAt? p = some .directory)
    (h : fs.follow here ns = .ok place) (hms : ms <+: ns) :
    fs.entryAt? (walk here ms) = some .directory := by
  induction ns generalizing here ms with
  | nil =>
    obtain rfl := List.prefix_nil.1 hms
    exact hhere here (List.prefix_refl here)
  | cons name ns ih =>
    rcases List.prefix_cons_iff.1 hms with rfl | ⟨ms, rfl, hrest⟩
    · exact hhere here (List.prefix_refl here)
    rw [follow] at h
    rw [walk]
    split at h
    · next hup =>
      rw [if_pos hup]
      exact ih (fun p hp => hhere p (hp.trans (List.dropLast_prefix here))) h hrest
    next hup =>
    rw [if_neg hup]
    split at h
    · cases h
    · next hlookup =>
      refine ih (fun p hp => ?_) h hrest
      rcases List.prefix_concat_iff.1 hp with rfl | hp
      · exact (lookup_eq_ok_iff.1 hlookup).2
      · exact hhere p hp
    · cases h
    · cases h

theorem entryAt?_of_follow_start (h : fs.follow (fs.start path) ns = .ok place) :
    fs.entryAt? place = some .directory := by
  rw [← walk_of_follow h]
  exact entry_of_follow (fun _ => entryAt?_of_prefix_start) h (List.prefix_refl ns)

/-- What a path is like that ends at a spot, and where its names lead. -/
def Spot.EndOf (fs : Files) (path : String) : Spot → Prop
  | .directory place => fs.follow (fs.start path) (names path) = .ok place
  | .named dir name slash => lastName? path = some name ∧
      fs.follow (fs.start path) (names path).dropLast = .ok dir ∧ endsInSlash path = slash

theorem endOf_of_locate {spot : Spot} (h : fs.locate path = .ok spot) : spot.EndOf fs path := by
  rw [locate] at h
  split at h
  · cases h
  split at h
  · cases h
  split at h
  · cases h
  dsimp only at h
  split at h
  · split at h
    · next hfollow =>
      cases h
      exact hfollow
    · cases h
  · next hlast =>
    split at h
    · next hfollow =>
      cases h
      exact ⟨hlast, hfollow, rfl⟩
    · cases h

theorem named_of_locate {dir : List String} {slash : Bool}
    (h : fs.locate path = .ok (.named dir name slash)) :
    lastName? path = some name ∧ fs.follow (fs.start path) (names path).dropLast = .ok dir := by
  obtain ⟨hlast, hfollow, -⟩ := endOf_of_locate h
  exact ⟨hlast, hfollow⟩

theorem follow_of_locate (h : fs.locate path = .ok (.directory place)) :
    fs.follow (fs.start path) (names path) = .ok place := endOf_of_locate h

theorem walk_of_locate {dir : List String} {slash : Bool}
    (h : fs.locate path = .ok (.named dir name slash)) :
    walk (fs.start path) (names path) = dir ++ [name] := by
  obtain ⟨hlast, hfollow⟩ := named_of_locate h
  obtain ⟨hnames, hup⟩ := names_of_lastName? hlast
  rw [hnames, walk_concat hup, walk_of_follow hfollow]

/-- The place that a path gives a name to at its end, whether or not there is anything. -/
structure Ends (fs : Files) (path : String) (place : List String) : Prop where
  named : lastName? path ≠ none
  place : walk (fs.start path) (names path) = place

theorem Ends.getLast? (h : fs.Ends path place) : place.getLast? = lastName? path := by
  obtain ⟨name, hname⟩ := Option.ne_none_iff_exists'.1 h.named
  obtain ⟨hnames, hup⟩ := names_of_lastName? hname
  rw [← h.place, hnames, walk_concat hup, List.getLast?_concat, hname]

theorem Ends.congr (h : fs'.Ends path place) (hworking : fs'.working = fs.working) :
    fs.Ends path place := by
  refine ⟨h.named, ?_⟩
  rw [← h.place, start, start, hworking]

theorem Ends.unique {p : List String} (h : fs.Ends path p) (h' : fs.Ends path place) :
    p = place :=
  h.place.symm.trans h'.place

theorem Leads.ends (h : fs.Leads path place) : fs.Ends path place := by
  obtain ⟨dir, name, rfl, hlocate, -⟩ := h.named
  refine ⟨?_, walk_of_locate hlocate⟩
  rw [(named_of_locate hlocate).1]
  exact Option.some_ne_none _

theorem Leads.not_ends_beside (h : fs.Leads path place) : ¬fs.Ends (path ++ ".tmp") place := by
  intro hbeside
  obtain ⟨dir, name, rfl, hlocate, -⟩ := h.named
  obtain ⟨hlast, -, hslash⟩ := endOf_of_locate hlocate
  obtain ⟨hname, dir', rfl⟩ := exists_eq_join hlast hslash
  have heq := hbeside.getLast?
  rw [List.getLast?_concat, lastName?_beside hname] at heq
  have hlength := congrArg String.length (Option.some.inj heq)
  rw [String.length_append] at hlength
  have htmp : ".tmp".length = 4 := by decide
  omega

theorem entryAt?_put_self {p : List String} {e : FileEntry} (h : fs.entryAt? p = none) :
    Files.entryAt? (fs.put p e) p = some e := by
  have hpre : ¬p.isPrefixOf fs.working = true := by
    intro hpre
    rw [entryAt?, if_pos hpre] at h
    cases h
  exact (if_neg hpre).trans (Table.get?_insert_self ..)

theorem entryAt?_eq_of_get? {p : List String} (hworking : fs'.working = fs.working)
    (h : fs'.entries.get? p = fs.entries.get? p) : fs'.entryAt? p = fs.entryAt? p := by
  rw [entryAt?, entryAt?, hworking, h]

/-- Whatever there is is in a directory. -/
def Rooted (fs : Files) : Prop := ∀ p ∈ fs.entries.keys, fs.entryAt? p.dropLast = some .directory

instance (fs : Files) : Decidable fs.Rooted :=
  inferInstanceAs (Decidable (∀ p ∈ fs.entries.keys, fs.entryAt? p.dropLast = some .directory))

theorem Rooted.put {p : List String} {e : FileEntry} (h : fs.Rooted)
    (hk : fs.Keeps (fs.put p e)) (hp : fs.entryAt? p.dropLast = some .directory) :
    (fs.put p e).Rooted := by
  intro q hq
  refine hk.directory _ ?_
  rcases Table.mem_keys_insert.1 hq with rfl | hq
  · exact hp
  · exact h q hq

theorem Rooted.erase {p : List String} (h : fs.Rooted) (hk : fs.Keeps (fs.erase p)) :
    (fs.erase p).Rooted := by
  intro q hq
  have hq : q ∈ (fs.entries.erase p).keys := hq
  rw [Table.keys_erase] at hq
  exact hk.directory _ (h q (List.mem_filter.1 hq).1)

theorem Leads.directory (h : fs.Leads path place) :
    fs.entryAt? place.dropLast = some .directory := by
  obtain ⟨dir, name, rfl, hlocate, -⟩ := h.named
  rw [List.dropLast_concat]
  exact entryAt?_of_follow_start (named_of_locate hlocate).2

/-- Directories stay, and there may be new ones on the way to a path. Else there is something else
only where it was `touched`. -/
structure Changes (fs fs' : Files) (path : String) (touched : List String → Prop) : Prop where
  keeps : fs.Keeps fs'
  entries : ∀ p, fs'.entries.get? p = fs.entries.get? p ∨ touched p ∨
    (fs.entryAt? p = none ∧ fs'.entryAt? p = some .directory ∧
      ∃ ns, ns <+: (names path).dropLast ∧ p = walk (fs.start path) ns)
  rooted : fs.Rooted → fs'.Rooted

/-- Where something is touched to replace a file: beside it and, once all is `done`, where it is
itself. -/
def Touched (fs : Files) (path : String) (done : Prop) (p : List String) : Prop :=
  done ∧ fs.Ends path p ∨ fs.Ends (path ++ ".tmp") p

theorem Touched.congr {done : Prop} (h : fs'.Touched path done place)
    (hworking : fs'.working = fs.working) : fs.Touched path done place :=
  h.imp (.imp_right (·.congr hworking)) (·.congr hworking)

namespace Changes

variable {done : Prop} {touched touched' : List String → Prop}

theorem refl (fs : Files) (path : String) (touched : List String → Prop) :
    fs.Changes fs path touched :=
  ⟨.refl fs, fun _ => .inl rfl, id⟩

theorem trans (h : fs.Changes fs' path touched) (h' : fs'.Changes fs'' path touched) :
    fs.Changes fs'' path touched := by
  have hstart : fs'.start path = fs.start path := by rw [start, start, h.keeps.working]
  refine ⟨h.keeps.trans h'.keeps, fun p => ?_, h'.rooted ∘ h.rooted⟩
  rcases h'.entries p with hp' | hp' | ⟨hnone, hdir, hwalk⟩
  · rcases h.entries p with hp | hp | ⟨hnone, hdir, hwalk⟩
    · exact .inl (hp'.trans hp)
    · exact .inr (.inl hp)
    · exact .inr (.inr ⟨hnone, h'.keeps.directory p hdir, hwalk⟩)
  · exact .inr (.inl hp')
  · rw [hstart] at hwalk
    rcases h.entries p with hp | hp | ⟨-, hdir', -⟩
    · have hnone' : fs.entryAt? p = none :=
        (entryAt?_eq_of_get? h.keeps.working hp).symm.trans hnone
      exact .inr (.inr ⟨hnone', hdir, hwalk⟩)
    · exact .inr (.inl hp)
    · rw [hdir'] at hnone
      cases hnone

theorem mono (h : fs.Changes fs' path touched) (htouched : ∀ p, touched p → touched' p) :
    fs.Changes fs' path touched' :=
  ⟨h.keeps, fun p => (h.entries p).imp_right (.imp_left (htouched p)), h.rooted⟩

/-- A place that is neither on the path nor named like its end is as it was. -/
theorem get?_eq (h : fs.Changes fs' path (fs.Touched path done)) {p : List String}
    (hlast : done → p.getLast? ≠ lastName? path)
    (hbeside : p.getLast? ≠ lastName? (path ++ ".tmp"))
    (hwalk : fs.entryAt? p = none → ∀ ns, ns <+: names path → p ≠ walk (fs.start path) ns) :
    fs'.entries.get? p = fs.entries.get? p := by
  rcases h.entries p with hp | (⟨hdone, hends⟩ | hends) | ⟨hnone, -, ns, hns, hpns⟩
  · exact hp
  · exact absurd hends.getLast? (hlast hdone)
  · exact absurd hends.getLast? hbeside
  · exact absurd hpns (hwalk hnone ns (hns.trans (List.dropLast_prefix _)))

end Changes

theorem leads_of_read (h : fs.read path = .ok bytes) :
    ∃ place, fs.Leads path place ∧ fs.entryAt? place = some (.file bytes) := by
  rw [Files.read] at h
  split at h
  · next place bytes' hfind =>
    cases h
    rw [find] at hfind
    split at hfind
    · cases hfind
    · cases hfind
    next dir name slash hlocate =>
    split at hfind
    · cases hfind
    · cases hfind
    · cases hfind
    next hlookup =>
    split at hfind
    · cases hfind
    next hslash =>
    cases hfind
    rw [Bool.not_eq_true] at hslash
    subst hslash
    obtain ⟨hlong, he⟩ := lookup_eq_ok_iff.1 hlookup
    refine ⟨_, ⟨⟨dir, name, rfl, hlocate, hlong⟩, ?_⟩, he⟩
    rw [he]
    intro hdirectory
    cases hdirectory
  · cases h
  · cases h

theorem Changes.read_of_not_touched {touched : List String → Prop}
    (h : fs.Changes fs' path touched) (hr : fs.read other = .ok bytes)
    (hother : ∀ p, fs.Ends other p → ¬touched p) : fs'.read other = .ok bytes := by
  obtain ⟨place, hl, he⟩ := leads_of_read hr
  have he' : fs'.entryAt? place = some (.file bytes) := by
    rcases h.entries place with hget | htouched | ⟨hnone, -⟩
    · rw [entryAt?_eq_of_get? h.keeps.working hget, he]
    · exact absurd htouched (hother place hl.ends)
    · rw [he] at hnone
      cases hnone
  obtain ⟨dir, name, hplace, hlocate, hlong⟩ := hl.named
  have hl' : fs'.Leads other place := by
    refine ⟨⟨dir, name, hplace, h.keeps.locate hlocate, hlong⟩, ?_⟩
    rw [he']
    intro hdirectory
    cases hdirectory
  exact hl'.read he'

theorem Changes.read {done : Prop} (h : fs.Changes fs' path (fs.Touched path done))
    (hr : fs.read other = .ok bytes) (hlast : done → lastName? other ≠ lastName? path)
    (hbeside : lastName? other ≠ lastName? (path ++ ".tmp")) : fs'.read other = .ok bytes := by
  apply h.read_of_not_touched hr
  rintro p hother (⟨hdone, hends⟩ | hends)
  · exact hlast hdone (hother.getLast?.symm.trans hends.getLast?)
  · exact hbeside (hother.getLast?.symm.trans hends.getLast?)

/-- A path to a place on the way to another path. -/
def Along (q path : String) : Prop :=
  isAbsolute q = isAbsolute path ∧ names q <+: (names path).dropLast

section Create

variable {touched : List String → Prop}

theorem keeps_put_directory {p : List String} (h : fs.entryAt? p = none) :
    fs.Keeps (fs.put p .directory) := by
  refine ⟨rfl, fun p' hp' => ?_⟩
  have hne : p ≠ p' := by
    rintro rfl
    rw [h] at hp'
    cases hp'
  have hp : Files.entryAt? (fs.put p .directory) p' = fs.entryAt? p' :=
    entryAt?_eq_of_get? rfl (Table.get?_insert_of_ne hne)
  exact hp.trans hp'

theorem named_of_makeDirectory (h : fs.makeDirectory q = .ok fs') : ∃ dir name slash,
    fs.locate q = .ok (.named dir name slash) ∧ fs.lookup dir name = .ok none ∧
      fs' = fs.put (dir ++ [name]) .directory := by
  rw [makeDirectory] at h
  split at h
  · cases h
  · cases h
  next dir name slash hlocate =>
  split at h
  · cases h
  · cases h
  next hlookup =>
  cases h
  exact ⟨dir, name, slash, hlocate, hlookup, rfl⟩

theorem changes_of_makeDirectory (hq : Along q path) (h : fs.makeDirectory q = .ok fs') :
    fs.Changes fs' path touched := by
  obtain ⟨dir, name, slash, hlocate, hlookup, rfl⟩ := named_of_makeDirectory h
  obtain ⟨-, he⟩ := lookup_eq_ok_iff.1 hlookup
  have hwalk : dir ++ [name] = walk (fs.start path) (names q) := by
    rw [← walk_of_locate hlocate, start, start, hq.1]
  have hkeeps : fs.Keeps (fs.put (dir ++ [name]) .directory) := keeps_put_directory he
  refine ⟨hkeeps, fun p => ?_, fun hrooted => hrooted.put hkeeps ?_⟩
  · by_cases hne : dir ++ [name] = p
    · subst hne
      exact .inr (.inr ⟨he, entryAt?_put_self he, names q, hq.2, hwalk⟩)
    · exact .inl (Table.get?_insert_of_ne hne)
  · rw [List.dropLast_concat]
    exact entryAt?_of_follow_start (named_of_locate hlocate).2

theorem changes_makeChain {qs : List String} (hqs : ∀ q ∈ qs, Along q path) :
    fs.Changes (fs.makeChain qs).1 path touched := by
  induction qs generalizing fs with
  | nil => exact .refl fs path touched
  | cons q qs ih =>
    obtain ⟨hq, hqs⟩ := List.forall_mem_cons.1 hqs
    have hchain : fs.Changes (fs.makeChain qs).1 path touched := ih hqs
    rw [makeChain]
    split
    · next h => exact changes_of_makeDirectory hq h
    · split
      · next h =>
        rw [h] at hchain
        exact hchain
      · next h =>
        rw [h] at hchain
        split
        · next h' => exact hchain.trans (changes_of_makeDirectory hq h')
        · exact hchain
    · exact .refl fs path touched

theorem makeParents_eq (fs : Files) (path : String) : fs.makeParents path =
    match parents? path with
    | some (q :: qs) => fs.makeChain (q :: qs)
    | _ => (fs, .ok ()) := by
  rw [makeParents, parent?]
  cases hpath : parents? path with
  | none => rfl
  | some qs =>
    cases qs with
    | nil =>
      rw [Option.map_some, List.headD_nil, root]
      cases isAbsolute path with
      | true => rfl
      | false => rfl
    | cons q qs =>
      obtain ⟨habove, hqs⟩ := of_parents?_eq_cons hpath
      dsimp only [Option.map_some, List.headD_cons]
      rw [if_neg habove.nonempty, makeDirectories, hqs]

theorem changes_makeParents (fs : Files) (path : String) (touched : List String → Prop) :
    fs.Changes (fs.makeParents path).1 path touched := by
  rw [makeParents_eq]
  split
  · next hqs => exact changes_makeChain fun q hq => of_mem_parents? hqs hq
  · exact .refl fs path touched

theorem Leads.changes_put (h : fs.Leads other place) (hplace : touched place) :
    fs.Changes (fs.put place (.file bytes)) path touched := by
  refine ⟨h.keeps_put, fun p => ?_, fun hrooted => hrooted.put h.keeps_put h.directory⟩
  by_cases hne : place = p
  · exact .inr (.inl (hne ▸ hplace))
  · exact .inl (Table.get?_insert_of_ne hne)

theorem Leads.changes_erase (h : fs.Leads other place) (hplace : touched place) :
    fs.Changes (fs.erase place) path touched := by
  refine ⟨h.keeps_erase, fun p => ?_, fun hrooted => hrooted.erase h.keeps_erase⟩
  by_cases hne : place = p
  · exact .inr (.inl (hne ▸ hplace))
  · exact .inl ((Table.get?_erase ..).trans (if_neg hne))

end Create

/-- Whatever comes of it, replacing a file changes nothing but what it creates; what is at the end
of its path changes only if it succeeds. -/
theorem changes_replace (fs : Files) (path : String) (bytes : List UInt8) :
    fs.Changes (fs.replace path bytes).1 path
      (fs.Touched path ((fs.replace path bytes).2 = .ok ())) := by
  rw [replace]
  split
  · next h =>
    have hparents := changes_makeParents fs path fun _ => False
    rw [h] at hparents
    exact hparents.mono fun _ => False.elim
  next made h =>
  dsimp only
  have hparents (touched : List String → Prop) : fs.Changes made path touched := by
    have hparents := changes_makeParents fs path touched
    rwa [h] at hparents
  split
  · exact hparents _
  next hwrite =>
  obtain ⟨beside, hbeside, rfl⟩ := leads_of_write hwrite
  have hends : fs.Ends (path ++ ".tmp") beside :=
    hbeside.ends.congr (hparents fun _ => False).keeps.working
  have hwritten (done : Prop) :
      fs.Changes (made.put beside (.file bytes)) path (fs.Touched path done) :=
    (hparents _).trans (hbeside.changes_put (.inr hends))
  split
  · exact hwritten _
  next hrename =>
  obtain ⟨src, place, moved, hsrc, -, hplace, rfl⟩ := leads_of_rename hrename
  have hworking := (hwritten False).keeps.working
  refine ((hwritten _).trans (hsrc.changes_erase (.inr (hsrc.ends.congr hworking)))).trans ?_
  exact (hsrc.erase hplace).changes_put (.inl ⟨rfl, hplace.ends.congr hworking⟩)

end GuildPolicy.Files
