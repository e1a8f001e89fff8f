import GuildPolicy.Files.Path
import Mathlib.Data.List.Basic

namespace GuildPolicy.Path

variable {a b cs : List Char} {dir name extension path q : String}

/-- What can name something in a directory. -/
structure IsName (name : String) : Prop where
  nonempty : name.toList ≠ []
  noSlash : '/' ∉ name.toList
  ne_dot : name ≠ "."
  ne_dots : name ≠ ".."

instance (name : String) : Decidable (IsName name) :=
  decidable_of_iff (name.toList ≠ [] ∧ '/' ∉ name.toList ∧ name ≠ "." ∧ name ≠ "..")
    ⟨fun ⟨hne, hslash, hdot, hdots⟩ => ⟨hne, hslash, hdot, hdots⟩,
      fun ⟨hne, hslash, hdot, hdots⟩ => ⟨hne, hslash, hdot, hdots⟩⟩

theorem split_ne_nil (cs : List Char) : split cs ≠ [] := by
  cases cs with
  | nil => exact List.cons_ne_nil _ _
  | cons c cs =>
    rw [split]
    split
    · exact List.cons_ne_nil _ _
    · split
      · exact List.cons_ne_nil _ _
      · exact List.cons_ne_nil _ _

theorem split_slash (cs : List Char) : split ('/' :: cs) = [] :: split cs := by
  rw [split, if_pos rfl]

theorem split_cons_of_ne (cs : List Char) {c : Char} (hc : c ≠ '/') :
    ∃ part parts, split cs = part :: parts ∧ split (c :: cs) = (c :: part) :: parts := by
  obtain ⟨part, parts, h⟩ := List.exists_cons_of_ne_nil (split_ne_nil cs)
  refine ⟨part, parts, h, ?_⟩
  rw [split, if_neg hc, h]

theorem split_of_notMem (h : '/' ∉ cs) : split cs = [cs] := by
  induction cs with
  | nil => rfl
  | cons c cs ih =>
    rw [List.mem_cons, not_or] at h
    rw [split, if_neg (Ne.symm h.1), ih h.2]

theorem split_append (a b : List Char) : split (a ++ '/' :: b) = split a ++ split b := by
  induction a with
  | nil => exact split_slash b
  | cons c a ih =>
    by_cases hc : c = '/'
    · subst hc
      rw [List.cons_append, split_slash, split_slash, ih, List.cons_append]
    · obtain ⟨part, parts, ha, hca⟩ := split_cons_of_ne a hc
      rw [List.cons_append, split, if_neg hc, ih, ha, hca]
      rfl

theorem notMem_of_mem_split {part : List Char} (h : part ∈ split cs) : '/' ∉ part := by
  induction cs generalizing part with
  | nil => rw [List.mem_singleton.1 h]; exact List.not_mem_nil
  | cons c cs ih =>
    by_cases hc : c = '/'
    · subst hc
      rw [split_slash, List.mem_cons] at h
      rcases h with rfl | h
      · exact List.not_mem_nil
      · exact ih h
    · obtain ⟨part', parts, hcs, hccs⟩ := split_cons_of_ne cs hc
      rw [hccs, List.mem_cons] at h
      rcases h with rfl | h
      · rw [List.mem_cons, not_or]
        exact ⟨Ne.symm hc, ih (hcs ▸ List.mem_cons_self ..)⟩
      · exact ih (hcs ▸ List.mem_cons_of_mem _ h)

theorem split_unsplit {parts : List (List Char)} (hne : parts ≠ []) (h : ∀ p ∈ parts, '/' ∉ p) :
    split (unsplit parts) = parts := by
  induction parts with
  | nil => exact absurd rfl hne
  | cons part parts ih =>
    obtain ⟨hpart, hparts⟩ := List.forall_mem_cons.1 h
    cases parts with
    | nil => exact split_of_notMem hpart
    | cons part' parts =>
      rw [unsplit, split_append, split_of_notMem hpart, ih (List.cons_ne_nil _ _) hparts]
      · rfl
      · exact nofun

theorem exists_toList_eq (h : path ≠ "") : ∃ c cs, path.toList = c :: cs :=
  List.exists_cons_of_ne_nil fun he => h (String.toList_eq_nil_iff.1 he)

theorem isAbsolute_of_isName (h : IsName name) : isAbsolute name = false := by
  refine decide_eq_false fun hhead => h.noSlash ?_
  exact List.mem_of_mem_head? hhead

theorem parts_join (dir : String) (h : IsName name) : ∃ parts,
    split (join dir name).toList = parts ++ [name.toList] ∧
      parts.filter moves = (split dir.toList).filter moves ∧
      isAbsolute (join dir name) = isAbsolute dir := by
  have hname : split name.toList = [name.toList] := split_of_notMem h.noSlash
  rw [join, isAbsolute_of_isName h, if_neg Bool.false_ne_true]
  by_cases hempty : dir = ""
  · subst hempty
    rw [if_pos (.inl rfl), String.empty_append]
    exact ⟨[], hname, rfl, isAbsolute_of_isName h⟩
  by_cases hslash : dir.toList.getLast? = some '/'
  · rw [if_pos (.inr hslash)]
    obtain ⟨front, hfront⟩ := List.getLast?_eq_some_iff.1 hslash
    refine ⟨split front, ?_, ?_, ?_⟩
    · rw [String.toList_append, hfront, List.append_assoc, List.singleton_append, split_append,
        hname]
    · rw [hfront, split_append, List.filter_append]
      exact (List.append_nil _).symm
    · rw [isAbsolute, isAbsolute, String.toList_append, hfront]
      cases front with
      | nil => rfl
      | cons c front => rfl
  · rw [if_neg (not_or.2 ⟨hempty, hslash⟩)]
    have hlist : (dir ++ "/" ++ name).toList = dir.toList ++ '/' :: name.toList := by
      rw [String.toList_append, String.toList_append, List.append_assoc]
      rfl
    refine ⟨split dir.toList, ?_, rfl, ?_⟩
    · rw [hlist, split_append, hname]
    · rw [isAbsolute, isAbsolute, hlist]
      obtain ⟨c, cs, hdir⟩ := exists_toList_eq hempty
      rw [hdir]
      rfl

theorem moves_of_isName (h : IsName name) : moves name.toList = true := by
  rw [moves, Bool.and_eq_true]
  refine ⟨decide_eq_true h.nonempty, decide_eq_true fun hdot => h.ne_dot ?_⟩
  rw [← String.toList_inj, hdot]
  rfl

theorem names_join (dir : String) (h : IsName name) :
    names (join dir name) = names dir ++ [name] := by
  obtain ⟨parts, hparts, hmoves, -⟩ := parts_join dir h
  rw [names, hparts, List.filter_append, hmoves, List.map_append]
  rw [List.filter_cons_of_pos (moves_of_isName h), List.filter_nil]
  rw [List.map_singleton, String.ofList_toList]
  rfl

theorem isAbsolute_join (dir : String) (h : IsName name) :
    isAbsolute (join dir name) = isAbsolute dir := by
  obtain ⟨parts, -, -, habsolute⟩ := parts_join dir h
  exact habsolute

theorem lastName?_join (dir : String) (h : IsName name) :
    lastName? (join dir name) = some name := by
  obtain ⟨parts, hparts, -, -⟩ := parts_join dir h
  have hname : [name.toList].filter (· ≠ []) = [name.toList] :=
    List.filter_cons_of_pos (decide_eq_true h.nonempty)
  rw [lastName?, hparts, List.filter_append, hname, List.getLast?_concat, Option.map_some,
    String.ofList_toList]
  exact Option.filter_some_pos (decide_eq_true ⟨h.ne_dot, h.ne_dots⟩)

theorem toList_join_eq (dir : String) (h : IsName name) :
    ∃ front, (join dir name).toList = front ++ name.toList := by
  rw [join, isAbsolute_of_isName h, if_neg Bool.false_ne_true]
  split
  · exact ⟨_, String.toList_append⟩
  · exact ⟨_, String.toList_append⟩

theorem endsInSlash_join (dir : String) (h : IsName name) :
    endsInSlash (join dir name) = false := by
  obtain ⟨front, hfront⟩ := toList_join_eq dir h
  refine decide_eq_false fun hlast => h.noSlash ?_
  rw [hfront, List.getLast?_append_of_ne_nil _ h.nonempty] at hlast
  exact List.mem_of_getLast? hlast

theorem join_ne_empty (dir : String) (h : IsName name) : join dir name ≠ "" := by
  obtain ⟨front, hfront⟩ := toList_join_eq dir h
  intro hempty
  rw [hempty] at hfront
  exact h.nonempty (List.append_eq_nil_iff.1 hfront.symm).2

theorem names_of_lastName? (h : lastName? path = some name) :
    names path = (names path).dropLast ++ [name] ∧ name ≠ ".." := by
  rw [lastName?, Option.filter_eq_some_iff, Option.map_eq_some_iff, decide_eq_true_iff] at h
  obtain ⟨⟨part, hlast, rfl⟩, hdot, hdots⟩ := h
  obtain ⟨front, hfront⟩ := List.getLast?_eq_some_iff.1 hlast
  have hne : part ≠ [] := by
    have hmem : part ∈ (split path.toList).filter (· ≠ []) := List.mem_of_getLast? hlast
    exact of_decide_eq_true (List.mem_filter.1 hmem).2
  have hdot' : part ≠ ['.'] := fun he => hdot (he ▸ rfl)
  have hmoves : moves part = true := by rw [moves, decide_eq_true hne, decide_eq_true hdot']; rfl
  have hsplit : (split path.toList).filter moves = front.filter (· ≠ ['.']) ++ [part] := by
    have hpair : (split path.toList).filter moves =
        ((split path.toList).filter (· ≠ [])).filter (· ≠ ['.']) := by
      rw [List.filter_filter]
      exact List.filter_congr fun part _ => Bool.and_comm ..
    have hpart : [part].filter (· ≠ ['.']) = [part] :=
      List.filter_cons_of_pos (decide_eq_true hdot')
    rw [hpair, hfront, List.filter_append, hpart]
  refine ⟨?_, hdots⟩
  rw [names, hsplit, List.map_append, List.map_singleton, List.dropLast_concat]

theorem getLast?_append (name extension : String) (h : extension.toList ≠ []) :
    (name ++ extension).toList.getLast? = extension.toList.getLast? := by
  rw [String.toList_append, List.getLast?_append_of_ne_nil _ h]

theorem isName_append (hname : '/' ∉ name.toList) (hextension : IsName extension)
    (hlast : extension.toList.getLast? ≠ some '.') : IsName (name ++ extension) := by
  have hlast' : (name ++ extension).toList.getLast? ≠ some '.' := by
    rwa [getLast?_append name extension hextension.nonempty]
  refine ⟨?_, ?_, ?_, ?_⟩
  · rw [String.toList_append]
    exact List.append_ne_nil_of_right_ne_nil _ hextension.nonempty
  · rw [String.toList_append, List.mem_append, not_or]
    exact ⟨hname, hextension.noSlash⟩
  · intro h
    exact hlast' (h ▸ rfl)
  · intro h
    exact hlast' (h ▸ rfl)

theorem getLast?_of_hasExtension (h : hasExtension name extension = true)
    (hne : extension.toList ≠ []) : name.toList.getLast? = extension.toList.getLast? := by
  rw [hasExtension, Bool.and_eq_true, List.isSuffixOf_iff_suffix] at h
  obtain ⟨front, hfront⟩ := h.2
  rw [← hfront, List.getLast?_append_of_ne_nil _ (List.cons_ne_nil _ _),
    List.getLast?_cons_of_ne_nil hne]

theorem join_append (dir extension : String) (h : IsName name) :
    join dir name ++ extension = join dir (name ++ extension) := by
  have habsolute : isAbsolute (name ++ extension) = false := by
    rw [← isAbsolute_of_isName h, isAbsolute, isAbsolute, String.toList_append,
      List.head?_append_of_ne_nil _ h.nonempty]
  rw [join, join, isAbsolute_of_isName h, habsolute, if_neg Bool.false_ne_true,
    if_neg Bool.false_ne_true]
  split
  · exact String.append_assoc
  · exact String.append_assoc

theorem lastName?_beside {file : String} (h : IsName file) :
    lastName? (join dir file ++ ".tmp") = some (file ++ ".tmp") := by
  rw [join_append dir ".tmp" h]
  exact lastName?_join dir (isName_append h.noSlash (by decide) (by decide))

/-- The parts of a path, after the slash at its start if it is absolute. -/
def parts (path : String) : List (List Char) :=
  split (if isAbsolute path then path.toList.tail else path.toList)

theorem names_eq_parts (path : String) : names path = ((parts path).filter moves).map .ofList := by
  rw [names, parts]
  cases habsolute : isAbsolute path with
  | false => rw [if_neg Bool.false_ne_true]
  | true =>
    have hhead : path.toList.head? = some '/' := of_decide_eq_true habsolute
    obtain ⟨cs, hcs⟩ := List.head?_eq_some_iff.1 hhead
    rw [if_pos rfl, hcs, split_slash]
    rfl

theorem parts_unsplit (h : l <+: parts path) (hne : l ≠ []) (hpath : path ≠ "") :
    isAbsolute (root path ++ .ofList (unsplit l)) = isAbsolute path ∧
      parts (root path ++ .ofList (unsplit l)) = l := by
  have hslash : ∀ part ∈ l, '/' ∉ part := fun part hpart => notMem_of_mem_split (h.subset hpart)
  have hsplit : split (unsplit l) = l := split_unsplit hne hslash
  cases habsolute : isAbsolute path with
  | true =>
    have hlist : (root path ++ .ofList (unsplit l)).toList = '/' :: unsplit l := by
      rw [root, habsolute, if_pos rfl, String.toList_append]
      exact congrArg ('/' :: ·) String.toList_ofList
    have hstarts : isAbsolute (root path ++ .ofList (unsplit l)) = true := by
      rw [isAbsolute, hlist]
      rfl
    refine ⟨hstarts, ?_⟩
    rw [parts, hstarts, if_pos rfl, hlist, List.tail_cons, hsplit]
  | false =>
    have hlist : (root path ++ .ofList (unsplit l)).toList = unsplit l := by
      rw [root, habsolute, if_neg Bool.false_ne_true, String.empty_append, String.toList_ofList]
    have hstarts : isAbsolute (root path ++ .ofList (unsplit l)) = false := by
      -- The first part is not empty, since no slash starts the path.
      obtain ⟨c, cs, hcs⟩ := exists_toList_eq hpath
      have hc : c ≠ '/' := by
        rintro rfl
        rw [isAbsolute, hcs] at habsolute
        cases habsolute
      obtain ⟨part, parts', -, hparts⟩ := split_cons_of_ne cs hc
      rw [parts, habsolute, if_neg Bool.false_ne_true, hcs, hparts] at h
      cases l with
      | nil => exact absurd rfl hne
      | cons part' l =>
        obtain ⟨rfl, -⟩ := List.cons_prefix_cons.1 h
        rw [isAbsolute, hlist]
        refine decide_eq_false fun hhead => hc ?_
        cases l with
        | nil => exact Option.some.inj hhead
        | cons part' l => exact Option.some.inj hhead
    refine ⟨hstarts, ?_⟩
    rw [parts, hstarts, if_neg Bool.false_ne_true, hlist, hsplit]

end GuildPolicy.Path
