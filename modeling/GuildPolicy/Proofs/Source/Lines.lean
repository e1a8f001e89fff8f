import GuildPolicy.Proofs.Source.Position
import GuildPolicy.Source.Lines

namespace GuildPolicy.Source

open GuildPolicy.Text

variable {text rest cs first : List Char} {others : List (List Char)} {c : Char}
variable {p : Position} {k : Nat}

/-- Part of a line, and not of the break between two. -/
def IsInLine (c : Char) : Prop := c ≠ '\n' ∧ c ≠ '\r'

/-- A line ends with the character `c`, when `next` follows it. -/
def EndsLine (c : Char) (next : Option Char) : Prop := c = '\n' ∨ c = '\r' ∧ next ≠ some '\n'

instance (c : Char) : Decidable (IsInLine c) := inferInstanceAs (Decidable (_ ∧ _))

theorem inLine_or_endsLine (c : Char) (next : Option Char) :
    IsInLine c ∨ EndsLine c next ∨ c = '\r' ∧ next = some '\n' := by
  by_cases hfeed : c = '\n'
  · exact .inr (.inl (.inl hfeed))
  by_cases hreturn : c = '\r'
  · by_cases hnext : next = some '\n'
    · exact .inr (.inr ⟨hreturn, hnext⟩)
    · exact .inr (.inl (.inr ⟨hreturn, hnext⟩))
  · exact .inl ⟨hfeed, hreturn⟩

theorem lines_inner (hc : IsInLine c) (cs : List Char) :
    lines (c :: cs) = (c :: (lines cs).headD []) :: (lines cs).tail := by
  rw [lines]
  · cases lines cs with
    | nil => rfl
    | cons => rfl
  · exact hc.1
  · exact fun _ hreturn _ => hc.2 hreturn
  · exact hc.2

theorem lines_ended (h : EndsLine c cs.head?) : lines (c :: cs) = [] :: lines cs := by
  rcases h with rfl | ⟨rfl, hnext⟩
  · rw [lines]
  · rw [lines]
    rintro rest rfl
    exact hnext rfl

theorem lines_joined (h : cs.head? = some '\n') : lines ('\r' :: cs) = lines cs := by
  obtain ⟨rest, rfl⟩ := List.head?_eq_some_iff.1 h
  rw [lines, lines]

theorem advance_inner (hc : IsInLine c) (p : Position) (next : Option Char) :
    p.advance c next = ⟨p.offset + c.utf8Size, p.line, p.column + 1⟩ := by
  rw [Position.advance, if_neg hc.1, if_neg hc.2]

theorem advance_ended {next : Option Char} (h : EndsLine c next) (p : Position) :
    p.advance c next = ⟨p.offset + c.utf8Size, p.line + 1, 1⟩ := by
  rw [Position.advance]
  rcases h with rfl | ⟨rfl, hnext⟩
  · exact if_pos rfl
  · rw [if_neg (by decide), if_pos rfl, if_neg hnext]

theorem advance_joined (p : Position) :
    p.advance '\r' (some '\n') = { p with offset := p.offset + '\r'.utf8Size } := by
  rw [Position.advance, if_neg (by decide), if_pos rfl, if_pos rfl]

/-- A text that is divided at a place: the lines that end before it, the part of its line before it,
and the lines of what is left. -/
theorem lines_append (p : Position) (before : List Char) (hrest : lines rest = first :: others) :
    ∃ ended part, lines (before ++ rest) = ended ++ (part ++ first) :: others ∧
      (p.walk before rest).line = p.line + ended.length ∧
      (p.walk before rest).column = (if ended = [] then p.column else 1) + part.length := by
  -- A character before the place goes to the front of the first line or ends a line of its own,
  -- and a carriage return goes with its line feed.
  induction before generalizing p with
  | nil => exact ⟨[], [], hrest, rfl, rfl⟩
  | cons c cs ih =>
    rw [Position.walk, List.cons_append, ← List.head?_append]
    obtain ⟨ended, part, hlines, hline, hcolumn⟩ := ih (p.advance c (cs ++ rest).head?)
    rw [hline, hcolumn]
    rcases inLine_or_endsLine c (cs ++ rest).head? with hc | hends | ⟨rfl, hnext⟩
    · rw [lines_inner hc, hlines, advance_inner hc]
      cases ended with
      | nil => exact ⟨[], c :: part, rfl, rfl, Nat.add_right_comm p.column 1 part.length⟩
      | cons line ended => exact ⟨(c :: line) :: ended, part, rfl, rfl, rfl⟩
    · rw [lines_ended hends, hlines, advance_ended hends]
      refine ⟨[] :: ended, part, rfl, Nat.add_right_comm p.line 1 ended.length, ?_⟩
      rw [ite_self, if_neg (List.cons_ne_nil _ _)]
    · rw [lines_joined hnext, hlines, hnext, advance_joined]
      exact ⟨ended, part, rfl, rfl, rfl⟩

/-- The position before a character that is left, by the lines of the whole text. -/
theorem lines_walk (before : List Char) (hrest : lines rest = first :: others) :
    ∃ ended part, lines (before ++ rest) = ended ++ (part ++ first) :: others ∧
      (Position.origin.walk before rest).line = ended.length + 1 ∧
      (Position.origin.walk before rest).column = part.length + 1 := by
  obtain ⟨ended, part, hlines, hline, hcolumn⟩ := lines_append .origin before hrest
  refine ⟨ended, part, hlines, hline.trans (Nat.add_comm ..), hcolumn.trans ?_⟩
  rw [Position.origin, ite_self, Nat.add_comm]

theorem lines_ne_nil (hne : cs ≠ []) : lines cs ≠ [] := by
  fun_cases lines cs with
  | case1 => exact absurd rfl hne
  | case2 | case3 | case4 | case5 | case6 => exact List.cons_ne_nil _ _

theorem line_le_length (before : List Char) (hne : rest ≠ []) :
    (Position.origin.walk before rest).line ≤ (lines (before ++ rest)).length := by
  obtain ⟨first, others, hrest⟩ := List.exists_cons_of_ne_nil (lines_ne_nil hne)
  obtain ⟨ended, part, hlines, hline, -⟩ := lines_walk before hrest
  rw [hlines, hline, List.length_append, List.length_cons]
  omega

theorem line_le_length_end (text : List Char) :
    (Position.origin.walk text []).line ≤ (lines text).length ↔
      ∃ c ∈ text.getLast?, IsInLine c := by
  rcases List.eq_nil_or_concat text with rfl | ⟨init, c, rfl⟩
  · constructor
    · exact fun h => absurd h (by decide)
    · rintro ⟨_, ⟨⟩, _⟩
  have hwalk (p : Position) : p.walk [c] [] = p.advance c none := rfl
  rw [List.concat_eq_append, Position.walk_append, List.append_nil, List.getLast?_concat, hwalk]
  by_cases hc : IsInLine c
  · obtain ⟨ended, part, hlines, hline, -⟩ := lines_walk init (lines_inner hc [])
    rw [advance_inner hc, hlines, hline]
    exact ⟨fun _ => ⟨c, rfl, hc⟩, fun _ => by simp [lines]⟩
  · have hends : EndsLine c none := by
      rcases inLine_or_endsLine c none with h | h | ⟨-, ⟨⟩⟩
      · exact absurd h hc
      · exact h
    have hlast : lines [c] = [] :: lines [] := lines_ended hends
    obtain ⟨ended, part, hlines, hline, -⟩ := lines_walk init hlast
    rw [advance_ended hends, hlines, hline]
    constructor
    · intro hle
      rw [List.length_append, lines, List.length_singleton] at hle
      exact absurd hle (Nat.not_succ_le_self _)
    · rintro ⟨_, ⟨⟩, h⟩
      exact absurd h hc

theorem offset_ofIndex_lt (hk : k < text.length) :
    (Position.ofIndex text k).offset < (encodeUtf8 text).length := by
  have hsucc := length_take_succ (List.getElem?_eq_getElem hk)
  have hinside := Position.IsIn.offset_le ⟨k + 1, hk, rfl⟩
  have hsize := text[k].utf8Size_pos
  change (encodeUtf8 (text.take (k + 1))).length ≤ _ at hinside
  change (encodeUtf8 (text.take k)).length < _
  omega

theorem ofIndex_eq_walk (hk : k ≤ text.length) :
    Position.ofIndex text k = Position.origin.walk (text.take k) (text.drop k) := by
  have hwalk := walk_ofIndex [] (text.take k) (text.drop k)
  rw [List.nil_append, List.take_append_drop, List.length_nil, Nat.zero_add, List.length_take,
    Nat.min_eq_left hk] at hwalk
  exact hwalk.symm

/-- Only the end of a text that closes with a line break, or has no characters, is on no line. -/
theorem Position.IsIn.line_le_length_iff (h : p.IsIn text) :
    p.line ≤ (lines text).length ↔
      p.offset < (encodeUtf8 text).length ∨ ∃ c ∈ text.getLast?, IsInLine c := by
  obtain ⟨k, hk, rfl⟩ := h
  rcases Nat.lt_or_eq_of_le hk with hlt | rfl
  · have hne : text.drop k ≠ [] := fun h => Nat.not_le.2 hlt (List.drop_eq_nil_iff.1 h)
    have hle := line_le_length (text.take k) hne
    rw [List.take_append_drop, ← ofIndex_eq_walk hk] at hle
    exact iff_of_true hle (.inl (offset_ofIndex_lt hlt))
  · have hend : (ofIndex text text.length).offset = (encodeUtf8 text).length :=
      congrArg (fun cs => (encodeUtf8 cs).length) List.take_length
    rw [hend, ofIndex_eq_walk hk, List.take_length, List.drop_length, line_le_length_end]
    exact ⟨.inr, fun h => h.resolve_left (Nat.lt_irrefl _)⟩

end GuildPolicy.Source
