import GuildPolicy.Guild.Uuid
import GuildPolicy.Proofs.Files.Path
import Mathlib.Algebra.Group.Nat.Defs

namespace GuildPolicy.Uuid

variable {g h : Uuid}

/-- What the text of an id is made of. -/
def alphabet : List Char := "0123456789abcdef-".toList

theorem hexDigit_mem {n : Nat} (hn : n < 16) : hexDigit n ∈ alphabet ∧ hexDigit n ≠ '-' := by
  have hall : ∀ n < 16, hexDigit n ∈ alphabet ∧ hexDigit n ≠ '-' := by decide
  exact hall n hn

theorem hexDigit_inj {n k : Nat} (hn : n < 16) (hk : k < 16) (he : hexDigit n = hexDigit k) :
    n = k := by
  have hall : ∀ n < 16, ∀ k < 16, hexDigit n = hexDigit k → n = k := by decide
  exact hall n hn k hk he

theorem mem_digits {c : Char} (hc : c ∈ g.digits) : c ∈ alphabet ∧ c ≠ '-' := by
  obtain ⟨i, -, rfl⟩ := List.mem_map.1 hc
  exact hexDigit_mem (Nat.mod_lt _ (by decide))

theorem mem_hyphenate {cs : List Char} {c : Char} (hc : c ∈ hyphenate cs) : c ∈ cs ∨ c = '-' := by
  rw [hyphenate] at hc
  simp only [List.mem_append, List.mem_cons] at hc
  rcases hc with (((hc | rfl | hc) | rfl | hc) | rfl | hc) | rfl | hc
  · exact .inl (List.mem_of_mem_take hc)
  · exact .inr rfl
  · exact .inl (List.mem_of_mem_drop (List.mem_of_mem_take hc))
  · exact .inr rfl
  · exact .inl (List.mem_of_mem_drop (List.mem_of_mem_take hc))
  · exact .inr rfl
  · exact .inl (List.mem_of_mem_drop (List.mem_of_mem_take hc))
  · exact .inr rfl
  · exact .inl (List.mem_of_mem_drop hc)

theorem filter_hyphenate {cs : List Char} (h : ∀ c ∈ cs, c ≠ '-') :
    (hyphenate cs).filter (· ≠ '-') = cs := by
  have hself {part : List Char} (hsub : part ⊆ cs) : part.filter (· ≠ '-') = part :=
    List.filter_eq_self.2 fun c hc => decide_eq_true (h c (hsub hc))
  have hhyphen (part : List Char) : ('-' :: part).filter (· ≠ '-') = part.filter (· ≠ '-') :=
    List.filter_cons_of_neg (by decide)
  have hgroup (n k : Nat) : ((cs.drop n).take k).filter (· ≠ '-') = (cs.drop n).take k :=
    hself fun c hc => List.mem_of_mem_drop (List.mem_of_mem_take hc)
  have hnext (n k : Nat) : (cs.drop n).take k ++ cs.drop (n + k) = cs.drop n := by
    rw [← List.drop_drop, List.take_append_drop]
  rw [hyphenate, List.filter_append, List.filter_append, List.filter_append, List.filter_append,
    hhyphen, hhyphen, hhyphen, hhyphen, hgroup, hgroup, hgroup,
    hself (List.take_subset ..), hself (List.drop_subset ..)]
  rw [List.append_assoc, List.append_assoc, List.append_assoc, hnext 16 4, hnext 12 4, hnext 8 4,
    List.take_append_drop]

theorem mem_text {c : Char} (hc : c ∈ g.text.toList) : c ∈ alphabet := by
  rw [text, String.toList_ofList] at hc
  rcases mem_hyphenate hc with hc | rfl
  · exact (mem_digits hc).1
  · decide

theorem eq_of_digits {n a b : Nat} (ha : a < 16 ^ n) (hb : b < 16 ^ n)
    (h : ∀ k < n, a / 16 ^ k % 16 = b / 16 ^ k % 16) : a = b := by
  induction n generalizing a b with
  | zero =>
    rw [Nat.pow_zero, Nat.lt_one_iff] at ha hb
    rw [ha, hb]
  | succ n ih =>
    have hlast := h 0 (Nat.succ_pos n)
    have hrest : a / 16 = b / 16 := by
      rw [Nat.pow_succ'] at ha hb
      refine ih (Nat.div_lt_of_lt_mul ha) (Nat.div_lt_of_lt_mul hb) fun k hk => ?_
      rw [Nat.div_div_eq_div_mul, Nat.div_div_eq_div_mul, ← Nat.pow_succ']
      exact h (k + 1) (Nat.succ_lt_succ hk)
    rw [Nat.pow_zero, Nat.div_one, Nat.div_one] at hlast
    omega

theorem digits_inj (he : g.digits = h.digits) : g = h := by
  refine BitVec.eq_of_toNat_eq (eq_of_digits (n := 32) g.isLt h.isLt fun k hk => ?_)
  have hmap : ∀ i ∈ List.range 32, hexDigit (g.toNat / Nat.pow 16 (31 - i) % 16) =
      hexDigit (h.toNat / Nat.pow 16 (31 - i) % 16) := List.map_inj_left.1 he
  have hdigit := hmap (31 - k) (List.mem_range.2 (by omega))
  rw [Nat.sub_sub_self (by omega)] at hdigit
  exact hexDigit_inj (Nat.mod_lt _ (by decide)) (Nat.mod_lt _ (by decide)) hdigit

theorem text_inj (he : g.text = h.text) : g = h := by
  have hlist : hyphenate g.digits = hyphenate h.digits := String.ofList_injective he
  have hfilter := congrArg (List.filter (· ≠ '-')) hlist
  rw [filter_hyphenate fun c hc => (mem_digits hc).2,
    filter_hyphenate fun c hc => (mem_digits hc).2] at hfilter
  exact digits_inj hfilter

theorem text_ne_nil (g : Uuid) : g.text.toList ≠ [] := by
  rw [text, String.toList_ofList, hyphenate]
  exact List.append_ne_nil_of_right_ne_nil _ (List.cons_ne_nil _ _)

theorem hexValue?_hexDigit {n : Nat} (hn : n < 16) : hexValue? (hexDigit n) = some n := by
  have hall : ∀ n < 16, hexValue? (hexDigit n) = some n := by decide
  exact hall n hn

/-- The first digits of a number make up what is left of it without the others. -/
theorem foldl_digits {n x k : Nat} (hx : x < 16 ^ n) (hk : k ≤ n) :
    ((List.range k).map fun i => x / 16 ^ (n - 1 - i) % 16).foldl (fun a d => 16 * a + d) 0 =
      x / 16 ^ (n - k) := by
  induction k with
  | zero => exact (Nat.div_eq_of_lt hx).symm
  | succ k ih =>
    have hnext : n - k = n - 1 - k + 1 := by omega
    have hrest : n - (k + 1) = n - 1 - k := by omega
    rw [List.range_succ, List.map_append, List.foldl_append, ih (by omega), List.map_singleton,
      List.foldl_cons, List.foldl_nil, hnext, hrest, Nat.pow_succ, ← Nat.div_div_eq_div_mul]
    exact Nat.div_add_mod _ 16

theorem length_digits (g : Uuid) : g.digits.length = 32 := by
  rw [digits, List.length_map, List.length_range]

theorem ofDigits?_digits (g : Uuid) : ofDigits? g.digits = some g := by
  have hvalue (i : Nat) : hexValue? (hexDigit (g.toNat / 16 ^ (31 - i) % 16)) =
      pure (g.toNat / 16 ^ (31 - i) % 16) := hexValue?_hexDigit (Nat.mod_lt _ (by decide))
  have hvalues : g.digits.mapM hexValue? =
      some ((List.range 32).map fun i => g.toNat / 16 ^ (32 - 1 - i) % 16) := by
    rw [digits, List.mapM_map]
    exact (congrArg (List.mapM · _) (funext hvalue)).trans List.mapM_pure
  have hx : g.toNat < 16 ^ 32 := g.isLt
  rw [ofDigits?, if_pos (length_digits g), hvalues, Option.map_some,
    foldl_digits hx (Nat.le_refl 32), Nat.sub_self, Nat.pow_zero, Nat.div_one,
    BitVec.ofNat_toNat, BitVec.setWidth_eq]

theorem parse?_text (g : Uuid) : parse? g.text = some g := by
  have hlist : g.text.toList = hyphenate g.digits := String.toList_ofList
  have hurn : dropUrn? g.text.toList = none := by
    refine if_neg fun htake => ?_
    have hmem : 'u' ∈ (g.text.toList.take 9).map Char.toLower := by
      rw [htake]
      decide
    obtain ⟨c, hc, hlower⟩ := List.mem_map.1 hmem
    have hnone : 'u' ∉ alphabet.map Char.toLower := by decide
    exact hnone (List.mem_map.2 ⟨c, mem_text (List.mem_of_mem_take hc), hlower⟩)
  have hbraces : dropBraces? g.text.toList = none := by
    refine if_neg fun h => ?_
    exact absurd (mem_text (List.mem_of_mem_head? h.1)) (by decide)
  have hlength : ¬g.text.toList.length = 32 := by
    rw [hlist, hyphenate]
    simp only [List.length_append, List.length_cons, List.length_take, List.length_drop,
      length_digits]
    decide
  have hdigits : (hyphenate g.digits).filter (· ≠ '-') = g.digits :=
    filter_hyphenate fun c hc => (mem_digits hc).2
  rw [parse?, hurn, hbraces]
  dsimp only
  rw [if_neg hlength, ofHyphenated?, hlist, hdigits]
  rw [if_pos rfl, ofDigits?_digits]

section NotMem

variable {c : Char} (hdigit : hexValue? c = none)

include hdigit

theorem notMem_of_ofDigits? {cs : List Char} (h : ofDigits? cs = some g) : c ∉ cs := by
  rw [ofDigits?] at h
  split at h
  · obtain ⟨ds, hds, -⟩ := Option.map_eq_some_iff.1 h
    intro hc
    obtain ⟨front, back, rfl⟩ := List.append_of_mem hc
    rw [List.mapM_append, List.mapM_cons, hdigit] at hds
    cases hfront : front.mapM hexValue? with
    | none =>
      rw [hfront] at hds
      cases hds
    | some ds =>
      rw [hfront] at hds
      cases hds
  · cases h

theorem notMem_of_ofHyphenated? {cs : List Char} (hc : c ≠ '-') (h : ofHyphenated? cs = some g) :
    c ∉ cs := by
  rw [ofHyphenated?] at h
  split at h
  · next hcs =>
    rw [← hcs]
    intro hmem
    rcases mem_hyphenate hmem with hmem | rfl
    · exact notMem_of_ofDigits? hdigit h hmem
    · exact hc rfl
  · cases h

theorem notMem_of_parse? {s : String} (hmark : c ∉ ['-', '\x7b', '\x7d'])
    (hurn : c.toLower ∉ "urn:uuid:".toList) (h : parse? s = some g) : c ∉ s.toList := by
  simp only [List.mem_cons, List.not_mem_nil, or_false, not_or] at hmark
  obtain ⟨hhyphen, hopen, hclose⟩ := hmark
  rw [parse?] at h
  split at h
  · next inner _ hdrop =>
    rw [dropUrn?] at hdrop
    split at hdrop
    · next htake =>
      cases hdrop
      rw [← List.take_append_drop 9 s.toList, List.mem_append, not_or]
      refine ⟨fun hc => hurn ?_, notMem_of_ofHyphenated? hdigit hhyphen h⟩
      rw [← htake]
      exact List.mem_map_of_mem hc
    · cases hdrop
  · next inner hdrop =>
    rw [dropBraces?] at hdrop
    split at hdrop
    · next hends =>
      cases hdrop
      obtain ⟨rest, hrest⟩ := List.head?_eq_some_iff.1 hends.1
      have hlast := hends.2
      rw [hrest] at hlast h ⊢
      rw [List.mem_cons, not_or]
      refine ⟨hopen, fun hc => ?_⟩
      rw [List.getLast?_cons_of_ne_nil (List.ne_nil_of_mem hc)] at hlast
      rw [← List.dropLast_append_getLast? _ hlast, List.mem_append, List.mem_singleton] at hc
      exact hc.elim (notMem_of_ofHyphenated? hdigit hhyphen h) hclose
    · cases hdrop
  · split at h
    · exact notMem_of_ofDigits? hdigit h
    · exact notMem_of_ofHyphenated? hdigit hhyphen h

end NotMem

end GuildPolicy.Uuid
