import GuildPolicy.Source.Position
import GuildPolicy.Text.Utf8

namespace GuildPolicy.Source

open GuildPolicy.Text

variable {text before taken rest : List Char} {c : Char} {i j k : Nat} {p : Position} {s t : Span}

/-- A line ends with the character at `i`. -/
def Breaks (text : List Char) (i : Nat) : Prop :=
  text[i]? = some '\n' ∨ text[i]? = some '\r' ∧ text[i + 1]? ≠ some '\n'

/-- The character at `i` is a carriage return, and its line feed is the next. -/
def Joins (text : List Char) (i : Nat) : Prop :=
  text[i]? = some '\r' ∧ text[i + 1]? = some '\n'

/-- No line ends between the characters before `i` and those before `k`. -/
def OneLine (text : List Char) (i k : Nat) : Prop := ∀ j < k, Breaks text j → j < i

instance : Decidable (Breaks text i) := inferInstanceAs (Decidable (_ ∨ _))

instance : Decidable (Joins text i) := inferInstanceAs (Decidable (_ ∧ _))

instance : Decidable (OneLine text i k) := inferInstanceAs (Decidable (∀ j < k, _))

/-- The place before the character at `k`. -/
def Position.ofIndex (text : List Char) (k : Nat) : Position where
  offset := (encodeUtf8 (text.take k)).length
  line := 1 + (List.range k).countP (Breaks text ·)
  column := 1 + (List.range k).countP fun i => OneLine text i k ∧ ¬Joins text i

/-- A place between two characters of the text, before the first or after the last. -/
def Position.IsIn (text : List Char) (p : Position) : Prop :=
  ∃ k ≤ text.length, p = .ofIndex text k

structure Span.IsIn (text : List Char) (s : Span) : Prop where
  start : s.start.IsIn text
  stop : s.stop.IsIn text
  ordered : s.start.offset ≤ s.stop.offset
  inside : s.stop.offset ≤ (encodeUtf8 text).length

theorem length_take_succ (h : text[k]? = some c) :
    (encodeUtf8 (text.take (k + 1))).length = (encodeUtf8 (text.take k)).length + c.utf8Size := by
  rw [List.take_add_one, h, Option.toList_some, encodeUtf8, encodeUtf8, List.flatMap_append,
    List.length_append, List.flatMap_singleton, String.length_utf8EncodeChar]

theorem oneLine_succ_of_breaks (h : Breaks text k) : OneLine text i (k + 1) ↔ k < i := by
  constructor
  · intro hline
    exact hline k (Nat.lt_succ_self k) h
  · intro hi j hj _
    omega

theorem oneLine_succ_of_not_breaks (h : ¬Breaks text k) :
    OneLine text i (k + 1) ↔ OneLine text i k := by
  constructor
  · intro hline j hj
    exact hline j (Nat.lt_succ_of_lt hj)
  · intro hline j hj hbreaks
    rcases Nat.lt_succ_iff_lt_or_eq.1 hj with hj | rfl
    · exact hline j hj hbreaks
    · exact absurd hbreaks h

theorem line_ofIndex_succ (text : List Char) (k : Nat) :
    (Position.ofIndex text (k + 1)).line =
      (Position.ofIndex text k).line + if Breaks text k then 1 else 0 := by
  simp only [Position.ofIndex, List.range_succ, List.countP_append, List.countP_singleton,
    decide_eq_true_eq, Nat.add_assoc]

theorem column_ofIndex_succ_of_breaks (h : Breaks text k) :
    (Position.ofIndex text (k + 1)).column = 1 := by
  change 1 + _ = 1
  rw [Nat.add_eq_left, List.countP_eq_zero]
  intro i hi
  rw [decide_eq_true_eq, oneLine_succ_of_breaks h]
  have hi := List.mem_range.1 hi
  omega

theorem column_ofIndex_succ_of_not_breaks (h : ¬Breaks text k) :
    (Position.ofIndex text (k + 1)).column =
      (Position.ofIndex text k).column + if Joins text k then 0 else 1 := by
  have hlast : OneLine text k k := fun j hj _ => hj
  simp only [Position.ofIndex, oneLine_succ_of_not_breaks h, List.range_succ, List.countP_append,
    List.countP_singleton, hlast, true_and, decide_not, Bool.not_eq_true', decide_eq_false_iff_not,
    ite_not, Nat.add_assoc]

theorem Position.eq_mk {offset line column : Nat} (hoffset : p.offset = offset)
    (hline : p.line = line) (hcolumn : p.column = column) : p = ⟨offset, line, column⟩ := by
  rw [← hoffset, ← hline, ← hcolumn]

theorem ofIndex_succ_of_breaks (h : text[k]? = some c) (hbreaks : Breaks text k) :
    Position.ofIndex text (k + 1) =
      ⟨(Position.ofIndex text k).offset + c.utf8Size, (Position.ofIndex text k).line + 1, 1⟩ := by
  have hline := line_ofIndex_succ text k
  rw [if_pos hbreaks] at hline
  exact Position.eq_mk (length_take_succ h) hline (column_ofIndex_succ_of_breaks hbreaks)

theorem ofIndex_succ_of_joins (h : text[k]? = some c) (hjoins : Joins text k) :
    Position.ofIndex text (k + 1) = { Position.ofIndex text k with
      offset := (Position.ofIndex text k).offset + c.utf8Size } := by
  have hbreaks : ¬Breaks text k := by
    rintro (hk | ⟨-, hk⟩)
    · rw [hjoins.1] at hk
      cases hk
    · exact hk hjoins.2
  have hline := line_ofIndex_succ text k
  have hcolumn := column_ofIndex_succ_of_not_breaks hbreaks
  rw [if_neg hbreaks] at hline
  rw [if_pos hjoins] at hcolumn
  exact Position.eq_mk (length_take_succ h) hline hcolumn

theorem ofIndex_succ_of_inner (h : text[k]? = some c) (hfeed : c ≠ '\n') (hreturn : c ≠ '\r') :
    Position.ofIndex text (k + 1) = ⟨(Position.ofIndex text k).offset + c.utf8Size,
      (Position.ofIndex text k).line, (Position.ofIndex text k).column + 1⟩ := by
  have hbreaks : ¬Breaks text k := by
    rw [Breaks, h, Option.some.injEq, Option.some.injEq]
    rintro (hc | ⟨hc, -⟩)
    · exact hfeed hc
    · exact hreturn hc
  have hjoins : ¬Joins text k := by
    rw [Joins, h, Option.some.injEq]
    exact fun hjoins => hreturn hjoins.1
  have hline := line_ofIndex_succ text k
  have hcolumn := column_ofIndex_succ_of_not_breaks hbreaks
  rw [if_neg hbreaks] at hline
  rw [if_neg hjoins] at hcolumn
  exact Position.eq_mk (length_take_succ h) hline hcolumn

theorem advance_ofIndex (h : text[k]? = some c) :
    (Position.ofIndex text k).advance c text[k + 1]? = .ofIndex text (k + 1) := by
  rw [Position.advance]
  split
  · next hc => rw [ofIndex_succ_of_breaks h (.inl (hc ▸ h))]
  next hfeed =>
  split
  · next hc =>
    split
    · next hnext => rw [ofIndex_succ_of_joins h ⟨hc ▸ h, hnext⟩]
    · next hnext => rw [ofIndex_succ_of_breaks h (.inr ⟨hc ▸ h, hnext⟩)]
  · next hreturn => rw [ofIndex_succ_of_inner h hfeed hreturn]

/-- Walking over characters of a text leads from one of its places to another. -/
theorem walk_ofIndex (before taken rest : List Char) :
    (Position.ofIndex (before ++ (taken ++ rest)) before.length).walk taken rest =
      .ofIndex (before ++ (taken ++ rest)) (before.length + taken.length) := by
  induction taken generalizing before with
  | nil => rfl
  | cons c cs ih =>
    have hc : (before ++ (c :: cs ++ rest))[before.length]? = some c := by
      rw [List.getElem?_append_right (Nat.le_refl _), Nat.sub_self]
      rfl
    have hnext : (before ++ (c :: cs ++ rest))[before.length + 1]? =
        cs.head?.or rest.head? := by
      rw [List.getElem?_append_right (Nat.le_succ _), Nat.succ_sub (Nat.le_refl _), Nat.sub_self,
        List.cons_append,
        List.getElem?_cons_succ, ← List.head?_eq_getElem?, List.head?_append]
    have htext : before ++ (c :: cs ++ rest) = before ++ [c] ++ (cs ++ rest) := by
      rw [List.append_assoc]
      rfl
    have hrest := ih (before ++ [c])
    rw [← htext, List.length_append, List.length_singleton] at hrest
    rw [Position.walk, ← hnext, advance_ofIndex hc, hrest, List.length_cons, Nat.add_assoc,
      Nat.add_comm 1]

theorem offset_ofIndex_le (h : i ≤ j) :
    (Position.ofIndex text i).offset ≤ (Position.ofIndex text j).offset := by
  have htake : text.take j = text.take i ++ (text.drop i).take (j - i) := by
    rw [← List.take_add, Nat.add_sub_cancel' h]
  change (encodeUtf8 (text.take i)).length ≤ (encodeUtf8 (text.take j)).length
  rw [htake, encodeUtf8, encodeUtf8, List.flatMap_append, List.length_append]
  exact Nat.le_add_right ..

theorem Position.IsIn.offset_le (h : p.IsIn text) : p.offset ≤ (encodeUtf8 text).length := by
  obtain ⟨k, hk, rfl⟩ := h
  have hend : (ofIndex text k).offset ≤ (encodeUtf8 (text.take text.length)).length :=
    offset_ofIndex_le hk
  rwa [List.take_length] at hend

theorem Span.isIn_ofIndex (hij : i ≤ j) (hj : j ≤ text.length) :
    Span.IsIn text ⟨.ofIndex text i, .ofIndex text j⟩ where
  start := ⟨i, Nat.le_trans hij hj, rfl⟩
  stop := ⟨j, hj, rfl⟩
  ordered := offset_ofIndex_le hij
  inside := Position.IsIn.offset_le ⟨j, hj, rfl⟩

theorem Span.isIn_point (h : p.IsIn text) : (Span.point p).IsIn text :=
  ⟨h, h, Nat.le_refl _, h.offset_le⟩

theorem Span.isIn_origin (text : List Char) : (Span.point .origin).IsIn text :=
  Span.isIn_point ⟨0, Nat.zero_le _, rfl⟩

theorem Span.IsIn.to (hs : s.IsIn text) (ht : t.IsIn text) : (s.to t).IsIn text := by
  have hs' := hs.ordered
  have ht' := ht.ordered
  constructor
  · rw [Span.to]
    dsimp only
    split
    · exact ht.start
    · exact hs.start
  · rw [Span.to]
    dsimp only
    split
    · exact ht.stop
    · exact hs.stop
  · rw [Span.to]
    dsimp only
    split <;> split <;> omega
  · rw [Span.to]
    dsimp only
    split
    · exact ht.inside
    · exact hs.inside

/-- The place of a text that has the characters `rest` after it. -/
def Position.Precedes (text : List Char) (p : Position) (rest : List Char) : Prop :=
  ∃ before, text = before ++ rest ∧ p = .ofIndex text before.length

theorem Position.precedes_origin (text : List Char) : Position.origin.Precedes text text :=
  ⟨[], rfl, rfl⟩

theorem Position.Precedes.isIn (h : p.Precedes text rest) : p.IsIn text := by
  obtain ⟨before, rfl, rfl⟩ := h
  refine ⟨before.length, ?_, rfl⟩
  rw [List.length_append]
  exact Nat.le_add_right ..

theorem Position.Precedes.walk (h : p.Precedes text (taken ++ rest)) :
    (p.walk taken rest).Precedes text rest := by
  obtain ⟨before, rfl, rfl⟩ := h
  refine ⟨before ++ taken, (List.append_assoc ..).symm, ?_⟩
  rw [walk_ofIndex, List.length_append]

theorem Position.Precedes.span (h : p.Precedes text (taken ++ rest)) :
    Span.IsIn text ⟨p, p.walk taken rest⟩ := by
  obtain ⟨before, rfl, rfl⟩ := h
  rw [walk_ofIndex]
  refine Span.isIn_ofIndex (Nat.le_add_right ..) ?_
  rw [List.length_append, List.length_append]
  omega

end GuildPolicy.Source
