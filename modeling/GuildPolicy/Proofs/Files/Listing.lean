import GuildPolicy.Proofs.Files.Changes
import Mathlib.Data.List.Nodup

namespace GuildPolicy.Files

open GuildPolicy.Path

variable {fs fs' : Files} {dir name : String} {here place ns ms : List String}
variable {entries : List (String × FileEntry)}

/-- Whatever stands somewhere has names on its way that can name something. -/
def Proper (fs : Files) : Prop := ∀ p ∈ fs.entries.keys, ∀ name ∈ p, IsName name

instance (fs : Files) : Decidable fs.Proper :=
  inferInstanceAs (Decidable (∀ p ∈ fs.entries.keys, ∀ name ∈ p, IsName name))

theorem follow_append (h : fs.follow here ns = .ok place) :
    fs.follow here (ns ++ ms) = fs.follow place ms := by
  induction ns generalizing here with
  | nil =>
    cases h
    rfl
  | cons name ns ih =>
    rw [List.cons_append, follow]
    rw [follow] at h
    split at h
    · next hup =>
      rw [if_pos hup]
      exact ih h
    · next hup =>
      rw [if_neg hup]
      split at h
      · cases h
      · exact ih h
      · cases h
      · cases h

theorem follow_singleton (hup : name ≠ "..")
    (h : fs.lookup place name = .ok (some .directory)) :
    fs.follow place [name] = .ok (place ++ [name]) := by
  rw [follow, if_neg hup, h]
  rfl

theorem follow_concat (hup : name ≠ "..") (h : fs.follow here (ns ++ [name]) = .ok place) :
    ∃ dir, fs.follow here ns = .ok dir ∧ fs.lookup dir name = .ok (some .directory) ∧
      place = dir ++ [name] := by
  induction ns generalizing here with
  | nil =>
    rw [List.nil_append, follow, if_neg hup] at h
    split at h
    · cases h
    · next hlookup =>
      cases h
      exact ⟨here, rfl, hlookup, rfl⟩
    · cases h
    · cases h
  | cons name' ns ih =>
    rw [List.cons_append, follow] at h
    rw [follow]
    split at h
    · next hup' =>
      rw [if_pos hup']
      exact ih h
    · next hup' =>
      rw [if_neg hup']
      split at h
      · cases h
      · exact ih h
      · cases h
      · cases h

theorem follow_of_prefix (h : fs.follow here ns = .ok place) (hms : ms <+: ns) :
    fs.follow here ms = .ok (walk here ms) := by
  induction ns generalizing here ms with
  | nil =>
    obtain rfl := List.prefix_nil.1 hms
    rfl
  | cons name ns ih =>
    rcases List.prefix_cons_iff.1 hms with rfl | ⟨ms, rfl, hrest⟩
    · rfl
    rw [follow] at h ⊢
    rw [walk]
    split at h
    · next hup =>
      rw [if_pos hup, if_pos hup]
      exact ih h hrest
    · next hup =>
      rw [if_neg hup, if_neg hup]
      split at h
      · cases h
      · exact ih h hrest
      · cases h
      · cases h

theorem find_of_directory? (h : fs.directory? dir = .ok place) :
    fs.find dir = .ok (place, .directory) := by
  rw [directory?] at h
  split at h
  · next hfind =>
    cases h
    exact hfind
  · cases h
  · cases h

theorem follow_of_directory? (h : fs.directory? dir = .ok place) :
    fs.follow (fs.start dir) (names dir) = .ok place := by
  have hfind := find_of_directory? h
  rw [find] at hfind
  split at hfind
  · cases hfind
  · next hlocate =>
    cases hfind
    exact follow_of_locate hlocate
  · next parent name slash hlocate =>
    obtain ⟨hlast, hfollow⟩ := named_of_locate hlocate
    obtain ⟨hnames, hup⟩ := names_of_lastName? hlast
    split at hfind
    · cases hfind
    · cases hfind
    · next hlookup =>
      cases hfind
      rw [hnames, follow_append hfollow, follow_singleton hup hlookup]
    · split at hfind
      · cases hfind
      · cases hfind

theorem locate_join (h : fs.follow (fs.start dir) (names dir) = .ok place) (hname : IsName name) :
    fs.locate (join dir name) =
      if '\x00' ∈ (join dir name).toList then .error .nulInName
      else if longestPath < (join dir name).utf8ByteSize then .error .nameTooLong
      else .ok (.named place name false) := by
  have hstart : fs.start (join dir name) = fs.start dir := by
    rw [start, start, isAbsolute_join dir hname]
  rw [locate, if_neg (join_ne_empty dir hname), lastName?_join dir hname, names_join dir hname]
  dsimp only
  rw [List.dropLast_concat, hstart, h, endsInSlash_join dir hname]

theorem mem_place_iff {p : List String} {e : FileEntry} {found : String × FileEntry} :
    (if p.dropLast = place then p.getLast?.map (·, e) else none) = some found ↔
      p = place ++ [found.1] ∧ e = found.2 := by
  constructor
  · intro h
    split at h
    · next hdrop =>
      obtain ⟨name, hlast, rfl⟩ := Option.map_eq_some_iff.1 h
      exact ⟨by rw [← hdrop, List.dropLast_append_getLast? _ hlast], rfl⟩
    · cases h
  · rintro ⟨rfl, rfl⟩
    rw [List.dropLast_concat, if_pos rfl, List.getLast?_concat]
    rfl

theorem mem_of_list (h : fs.list dir = .ok entries) : ∃ place, fs.directory? dir = .ok place ∧
    ∀ name e, (name, e) ∈ entries ↔ fs.entries.get? (place ++ [name]) = some e := by
  rw [list] at h
  split at h
  · cases h
  next place hplace =>
  cases h
  refine ⟨place, hplace, fun name e => ?_⟩
  rw [List.mem_mergeSort, List.mem_filterMap, Table.get?_eq_some_iff]
  constructor
  · rintro ⟨⟨p, e'⟩, hmem, he⟩
    obtain ⟨rfl, rfl⟩ := mem_place_iff.1 he
    exact hmem
  · intro hmem
    exact ⟨_, hmem, mem_place_iff.2 ⟨rfl, rfl⟩⟩

theorem pairwise_of_list (h : fs.list dir = .ok entries) :
    entries.Pairwise fun a b => a.1 < b.1 := by
  rw [list] at h
  split at h
  · cases h
  next place hplace =>
  cases h
  generalize hfound : fs.entries.entries.filterMap _ = found
  have hnames : found.Pairwise fun a b => a.1 ≠ b.1 := by
    have hkeys : fs.entries.entries.Pairwise fun a b => a.1 ≠ b.1 :=
      List.pairwise_map.1 fs.entries.nodup
    rw [← hfound, List.pairwise_filterMap]
    refine hkeys.imp fun {a b} hne x hx y hy hxy => hne ?_
    rw [(mem_place_iff.1 hx).1, (mem_place_iff.1 hy).1, hxy]
  have hsorted : (found.mergeSort fun a b => !decide (b.1 < a.1)).Pairwise fun a b =>
      (!decide (b.1 < a.1)) = true := by
    refine List.pairwise_mergeSort (fun a b c hab hbc => ?_) (fun a b => ?_) found
    · rw [Bool.not_eq_true', decide_eq_false_iff_not, String.not_lt] at hab hbc ⊢
      exact String.le_trans hab hbc
    · rw [Bool.or_eq_true, Bool.not_eq_true', Bool.not_eq_true', decide_eq_false_iff_not,
        decide_eq_false_iff_not, String.not_lt, String.not_lt]
      exact String.le_total a.1 b.1
  have hdistinct := ((List.mergeSort_perm found fun a b => !decide (b.1 < a.1)).pairwise_iff
    fun h => Ne.symm h).2 hnames
  refine (hsorted.and hdistinct).imp fun {a b} ⟨hle, hne⟩ => ?_
  rw [Bool.not_eq_true', decide_eq_false_iff_not, String.not_lt] at hle
  by_contra hnot
  exact hne (String.le_antisymm hle (String.not_lt.1 hnot))

/-- What is in a directory is listed, whatever order it is kept in. -/
theorem list_eq (hplace : fs.directory? dir = .ok place)
    (hperm : (fs.entries.entries.filterMap fun (p, e) =>
      if p.dropLast = place then p.getLast?.map (·, e) else none).Perm entries)
    (hsorted : entries.Pairwise fun a b => a.1 < b.1) : fs.list dir = .ok entries := by
  cases hlist : fs.list dir with
  | error f =>
    rw [list, hplace] at hlist
    cases hlist
  | ok found =>
    have hsorted' := pairwise_of_list hlist
    rw [list, hplace] at hlist
    cases hlist
    refine congrArg Except.ok (((List.mergeSort_perm ..).trans hperm).eq_of_pairwise ?_ hsorted'
      hsorted)
    intro a b _ _ hab hba
    exact absurd (String.lt_trans hab hba) (String.lt_irrefl a.1)

end GuildPolicy.Files
