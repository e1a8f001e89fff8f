import GuildPolicy.Proofs.Files.Path

namespace GuildPolicy.Path

variable {path q : String} {qs : List String} {l : List (List Char)}
variable {rest : List (List (List Char))}

/-- A path that leads to another one from right above it. -/
structure Above (q path : String) : Prop where
  absolute : isAbsolute q = isAbsolute path
  names : names q = (names path).dropLast
  begins : q.toList <+: path.toList
  nonempty : q ≠ ""
  /-- No slash or dot comes after its last name. -/
  trimmed : lastName? q = (Path.names q).getLast?.filter (· ≠ "..")

theorem moves_of_counts {part : List Char} (h : counts false part = true) :
    moves part = true := by
  rw [counts, Bool.false_and, Bool.or_false] at h
  exact h

theorem not_moves_of_not_counts {relative : Bool} {part : List Char}
    (h : ¬counts relative part = true) : ¬moves part = true := by
  rw [counts, Bool.or_eq_true, not_or] at h
  exact h.1

/-- The longest beginning moves as far as all parts do, and the others are those of what is before
its last part. -/
theorem beginnings_eq_cons {relative : Bool} {parts : List (List Char)}
    (h : beginnings relative parts = l :: rest) : ∃ part before, l = part :: before ∧
      counts (relative && before.isEmpty) part = true ∧ l <:+ parts ∧
      l.filter moves = parts.filter moves ∧ rest = beginnings relative before := by
  induction parts with
  | nil => cases h
  | cons part before ih =>
    rw [beginnings] at h
    split at h
    · next hcounts =>
      cases h
      exact ⟨part, before, rfl, hcounts, List.suffix_refl _, rfl, rfl⟩
    · next hcounts =>
      obtain ⟨part', before', hl, hcounts', hsuffix, hmoves, hrest⟩ := ih h
      refine ⟨part', before', hl, hcounts', hsuffix.trans (List.suffix_cons ..), ?_, hrest⟩
      rw [hmoves, List.filter_cons_of_neg (not_moves_of_not_counts hcounts)]

theorem filter_moves_of_beginnings {relative : Bool} {parts : List (List Char)}
    (h : beginnings relative parts = []) : parts.filter moves = [] := by
  induction parts with
  | nil => rfl
  | cons part before ih =>
    rw [beginnings] at h
    split at h
    · cases h
    · next hcounts =>
      rw [List.filter_cons_of_neg (not_moves_of_not_counts hcounts), ih h]

theorem unsplit_append {a b : List (List Char)} (ha : a ≠ []) (hb : b ≠ []) :
    unsplit (a ++ b) = unsplit a ++ '/' :: unsplit b := by
  induction a with
  | nil => exact absurd rfl ha
  | cons part a ih =>
    cases a with
    | nil =>
      obtain ⟨part', b, rfl⟩ := List.exists_cons_of_ne_nil hb
      rfl
    | cons part' a =>
      change part ++ '/' :: unsplit (part' :: a ++ b) =
        (part ++ '/' :: unsplit (part' :: a)) ++ '/' :: unsplit b
      rw [ih (List.cons_ne_nil _ _), List.append_assoc, List.cons_append]

theorem unsplit_split (cs : List Char) : unsplit (split cs) = cs := by
  induction cs with
  | nil => rfl
  | cons c cs ih =>
    by_cases hc : c = '/'
    · subst hc
      rw [split_slash, unsplit, ih]
      · rfl
      · exact fun h => split_ne_nil cs h
    · obtain ⟨part, parts, hcs, hccs⟩ := split_cons_of_ne cs hc
      rw [hcs] at ih
      rw [hccs, ← ih]
      cases parts with
      | nil => rfl
      | cons part' parts => rfl

theorem isPrefix_unsplit {a b : List (List Char)} (ha : a ≠ []) (h : a <+: b) :
    unsplit a <+: unsplit b := by
  obtain ⟨c, rfl⟩ := h
  cases c with
  | nil => exact ⟨[], by rw [List.append_nil, List.append_nil]⟩
  | cons part c =>
    rw [unsplit_append ha (List.cons_ne_nil _ _)]
    exact List.prefix_append ..

theorem exists_split_eq_concat (cs : List Char) : ∃ parts before part, split cs = parts ++ [part] ∧
    '/' ∉ part ∧ cs = before ++ part ∧ (before = [] ∨ before.getLast? = some '/') := by
  obtain ⟨parts, part, hparts⟩ : ∃ parts part, split cs = parts ++ [part] := by
    rcases List.eq_nil_or_concat (split cs) with hnil | ⟨parts, part, hparts⟩
    · exact absurd hnil (split_ne_nil cs)
    · exact ⟨parts, part, by rw [hparts, List.concat_eq_append]⟩
  have hpart : part ∈ split cs := by
    rw [hparts]
    exact List.mem_append_right _ (List.mem_singleton.2 rfl)
  have hslash : '/' ∉ part := notMem_of_mem_split hpart
  have hcs := unsplit_split cs
  rw [hparts] at hcs
  by_cases hnil : parts = []
  · subst hnil
    exact ⟨[], [], part, hparts, hslash, hcs.symm, .inl rfl⟩
  · rw [unsplit_append hnil (List.cons_ne_nil _ _)] at hcs
    refine ⟨parts, unsplit parts ++ ['/'], part, hparts, hslash, ?_, .inr List.getLast?_concat⟩
    rw [← hcs, List.append_assoc]
    rfl

theorem exists_eq_join {name : String} (h : lastName? path = some name)
    (hslash : endsInSlash path = false) : IsName name ∧ ∃ dir, path = join dir name := by
  obtain ⟨parts, before, part, hparts, hpart, htext, hbefore⟩ := exists_split_eq_concat path.toList
  have hne : part ≠ [] := by
    rintro rfl
    rw [List.append_nil] at htext
    rcases hbefore with rfl | hlast
    · rw [lastName?, htext] at h
      cases h
    · rw [endsInSlash, htext, hlast] at hslash
      cases hslash
  have hlast : [part].filter (· ≠ []) = [part] := List.filter_cons_of_pos (decide_eq_true hne)
  rw [lastName?, hparts, List.filter_append, hlast, List.getLast?_concat, Option.map_some,
    Option.filter_eq_some_iff, decide_eq_true_iff] at h
  obtain ⟨hname, hdot, hdots⟩ := h
  cases hname
  have hname : IsName (String.ofList part) := by
    refine ⟨?_, ?_, hdot, hdots⟩
    · rwa [String.toList_ofList]
    · rwa [String.toList_ofList]
  have hends : String.ofList before = "" ∨ (String.ofList before).toList.getLast? = some '/' := by
    rw [String.toList_ofList]
    exact hbefore.imp_left (congrArg String.ofList)
  refine ⟨hname, String.ofList before, ?_⟩
  rw [join, isAbsolute_of_isName hname, if_neg Bool.false_ne_true, if_pos hends,
    ← String.toList_inj, htext, String.toList_append, String.toList_ofList, String.toList_ofList]

theorem parents?_eq (path : String) : parents? path =
    match beginnings (!isAbsolute path) (parts path).reverse with
    | [] => none
    | _ :: shorter =>
      some (shorter.map fun parts => root path ++ String.ofList (unsplit parts.reverse)) := rfl

theorem names_of_parents?_eq_none (h : parents? path = none) : names path = [] := by
  rw [parents?_eq] at h
  split at h
  · next hnone =>
    have hreverse := filter_moves_of_beginnings hnone
    rw [List.filter_reverse, List.reverse_eq_nil_iff] at hreverse
    rw [names_eq_parts, hreverse, List.map_nil]
  · cases h

theorem toList_eq_parts (path : String) :
    path.toList = (root path).toList ++ unsplit (parts path) := by
  rw [parts, unsplit_split, root]
  cases habsolute : isAbsolute path with
  | false => rfl
  | true =>
    obtain ⟨cs, hcs⟩ := List.head?_eq_some_iff.1 (of_decide_eq_true habsolute)
    rw [hcs]
    rfl

theorem filter_split_eq_parts (path : String) :
    (split path.toList).filter (· ≠ []) = (parts path).filter (· ≠ []) := by
  rw [parts]
  cases habsolute : isAbsolute path with
  | false => rfl
  | true =>
    obtain ⟨cs, hcs⟩ := List.head?_eq_some_iff.1 (of_decide_eq_true habsolute)
    rw [hcs, split_slash]
    rfl

theorem ne_nil_of_counts {first : Bool} {part : List Char} (h : counts first part = true) :
    part ≠ [] := by
  rintro rfl
  rw [counts, Bool.or_eq_true, Bool.and_eq_true] at h
  rcases h with h | ⟨-, h⟩
  · cases h
  · cases h

/-- A path whose last part counts ends with its last name, unless it goes up or is a dot. -/
theorem lastName?_of_counts {part : List Char} {before : List (List Char)} {first : Bool}
    (hparts : parts q = (part :: before).reverse)
    (hcounts : counts (first && before.isEmpty) part = true) :
    lastName? q = (names q).getLast?.filter (· ≠ "..") := by
  have hne : [part].filter (· ≠ []) = [part] :=
    List.filter_cons_of_pos (decide_eq_true (ne_nil_of_counts hcounts))
  rw [List.reverse_cons] at hparts
  rw [lastName?, filter_split_eq_parts, names_eq_parts, hparts, List.filter_append, hne,
    List.getLast?_concat, List.filter_append, List.map_append]
  rw [counts, Bool.or_eq_true, Bool.and_eq_true, Bool.and_eq_true, decide_eq_true_iff] at hcounts
  rcases hcounts with hmoves | ⟨⟨-, hbefore⟩, rfl⟩
  · have hdot : String.ofList part ≠ "." := by
      intro hdot
      have hpart : part = ['.'] := String.ofList_injective hdot
      rw [hpart] at hmoves
      cases hmoves
    rw [List.filter_cons_of_pos hmoves, List.filter_nil, List.map_singleton,
      List.getLast?_concat, Option.map_some]
    simp only [Option.filter, ne_eq, hdot, not_false_eq_true, true_and]
  · -- The dot is all there is.
    rw [List.isEmpty_iff.1 hbefore]
    rfl

theorem of_beginning {part : List Char} {before : List (List Char)}
    (h : (part :: before).reverse <+: parts path)
    (hcounts : counts (!isAbsolute path && before.isEmpty) part = true) (hpath : path ≠ "")
    (hq : q = root path ++ String.ofList (unsplit (part :: before).reverse)) :
    isAbsolute q = isAbsolute path ∧ parts q = (part :: before).reverse ∧
      q.toList <+: path.toList ∧ q ≠ "" := by
  have hne : (part :: before).reverse ≠ [] := List.reverse_ne_nil_iff.2 (List.cons_ne_nil _ _)
  obtain ⟨habsolute, hparts⟩ := parts_unsplit h hne hpath
  rw [← hq] at habsolute hparts
  refine ⟨habsolute, hparts, ?_, ?_⟩
  · rw [hq, String.toList_append, String.toList_ofList, toList_eq_parts path]
    exact (List.prefix_append_right_inj _).2 (isPrefix_unsplit hne h)
  · rintro rfl
    have hnil : [[]] = (part :: before).reverse := hparts
    rw [List.reverse_cons] at hnil
    have hlast := congrArg List.getLast? hnil
    rw [List.getLast?_concat] at hlast
    exact ne_nil_of_counts hcounts (Option.some.inj hlast).symm

/-- The paths that lead to the first of the paths that lead to a path are the others. -/
theorem of_parents?_eq_cons (h : parents? path = some (q :: qs)) :
    Above q path ∧ parents? q = some qs := by
  have hpath : path ≠ "" := by
    rintro rfl
    cases h
  rw [parents?_eq] at h
  split at h
  · cases h
  next first shorter hbeginnings =>
  obtain ⟨last, before, rfl, hcounts, hsuffix, hmoves, rfl⟩ := beginnings_eq_cons hbeginnings
  rw [Option.some.injEq, List.map_eq_cons_iff] at h
  obtain ⟨l, shorter, hshorter, hq, hqs⟩ := h
  obtain ⟨part, before', rfl, hcounts', hsuffix', hmoves', rfl⟩ := beginnings_eq_cons hshorter
  have hbegins : (part :: before').reverse <+: parts path := by
    rw [← List.reverse_suffix, List.reverse_reverse]
    exact (hsuffix'.trans (List.suffix_cons ..)).trans hsuffix
  obtain ⟨habsolute, hparts, htext, hne⟩ := of_beginning hbegins hcounts' hpath hq.symm
  refine ⟨⟨habsolute, ?_, htext, hne, lastName?_of_counts hparts hcounts'⟩, ?_⟩
  · -- There is a part before the last one, so that one is no dot at the start.
    have hlast : moves last = true := by
      have hbefore : before.isEmpty = false := by
        rw [← Bool.not_eq_true, List.isEmpty_iff]
        rintro rfl
        cases hshorter
      rw [hbefore, Bool.and_false] at hcounts
      exact moves_of_counts hcounts
    rw [names_eq_parts, names_eq_parts, hparts, ← List.reverse_reverse (parts path),
      List.filter_reverse, List.filter_reverse, hmoves', ← hmoves, List.filter_cons_of_pos hlast,
      List.reverse_cons, List.map_append, List.map_singleton, List.dropLast_concat]
  · have hroot : root q = root path := by rw [root, root, habsolute]
    rw [parents?_eq, habsolute, hparts, List.reverse_reverse, hroot, ← hqs]
    rw [beginnings, if_pos hcounts']

theorem length_names_of_parents?_eq_nil (h : parents? path = some []) :
    (names path).length ≤ 1 := by
  rw [parents?_eq] at h
  split at h
  · cases h
  next first shorter hbeginnings =>
  obtain ⟨last, before, rfl, hcounts, hsuffix, hmoves, rfl⟩ := beginnings_eq_cons hbeginnings
  rw [Option.some.injEq, List.map_eq_nil_iff] at h
  have hnone := filter_moves_of_beginnings h
  rw [names_eq_parts, List.length_map, ← List.length_reverse, ← List.filter_reverse, ← hmoves,
    List.filter_cons, hnone]
  split
  · exact Nat.le_refl 1
  · exact Nat.zero_le 1

/-- The paths that lead to a path start where it does and have its first names. -/
theorem of_mem_parents? {q' : String} (h : parents? path = some qs) (hq : q' ∈ qs) :
    isAbsolute q' = isAbsolute path ∧ names q' <+: (names path).dropLast := by
  induction qs generalizing path with
  | nil => cases hq
  | cons q qs ih =>
    obtain ⟨habove, hqs⟩ := of_parents?_eq_cons h
    rcases List.mem_cons.1 hq with rfl | hq
    · exact ⟨habove.absolute, habove.names ▸ List.prefix_refl _⟩
    · obtain ⟨habsolute, hnames⟩ := ih hqs hq
      exact ⟨habsolute.trans habove.absolute,
        habove.names ▸ hnames.trans (List.dropLast_prefix _)⟩

end GuildPolicy.Path
