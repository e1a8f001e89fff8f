import GuildPolicy.Proofs.Module.Positions
import GuildPolicy.Proofs.Source.Excerpt
import GuildPolicy.Proofs.Source.Lines

namespace GuildPolicy

open GuildPolicy.Source GuildPolicy.Syntax GuildPolicy.Text

variable {v : Vocabulary} {source filename : String} {e : CompileError} {text : List Char}

namespace CompileError

/-- The error starts before the end of its text, or at the end of a line that is not ended. -/
def StartsOnLine (e : CompileError) : Prop :=
  e.span.start.offset < (encodeUtf8 e.source.toList).length ∨
    ∃ c ∈ e.source.toList.getLast?, IsInLine c

def heading (e : CompileError) : String :=
  Source.heading e.span.gutter e.filename e.span.start e.message

/-- Under the heading of the error, the line that it starts on stands with its number, and under
the place where it starts is a caret. -/
def ShowsStart (e : CompileError) : Prop :=
  ∃ line carets later, (lines e.source.toList)[e.span.start.line - 1]? = some line ∧ 0 < carets ∧
    e.render = e.heading ++
      (marked e.span.gutter e.span.start.line line (e.span.start.column - 1) carets ++ later)

end CompileError

theorem source_of_compile (h : compile v source filename = .error e) : e.source = source := by
  rw [compile] at h
  split at h
  · cases h
    rfl
  split at h
  · cases h
    rfl
  · cases h

/-- An error is printed with the line that it starts on, and with a caret there, exactly if it
starts on a line; if it does not, its heading is all that is printed. -/
theorem render_showsStart (h : compile v source filename = .error e) :
    (e.ShowsStart ↔ e.StartsOnLine) ∧ (¬e.StartsOnLine → e.render = e.heading) := by
  have hin : e.span.IsIn e.source.toList := (source_of_compile h).symm ▸ compile_isIn h
  have hline : e.span.start.line ≤ (lines e.source.toList).length ↔ e.StartsOnLine :=
    hin.start.line_le_length_iff
  have hfirst : 1 ≤ e.span.start.line := by
    obtain ⟨k, -, hk⟩ := hin.start
    rw [hk]
    exact Nat.le_add_right ..
  refine ⟨⟨?_, ?_⟩, ?_⟩
  · rintro ⟨line, -, -, hshown, -⟩
    have hlt := List.getElem?_eq_some_iff.1 hshown |>.1
    exact hline.1 (by omega)
  · intro honline
    have hlt : e.span.start.line - 1 < (lines e.source.toList).length := by
      have hle := hline.2 honline
      omega
    have hshown := List.getElem?_eq_getElem hlt
    have hrender := excerpt_of_line e.filename e.message hfirst hshown
    rw [row_start hfirst] at hrender
    exact ⟨_, _, _, hshown, Nat.le_max_right .., hrender⟩
  · intro hno
    exact excerpt_of_no_line e.filename e.message hfirst (Nat.lt_of_not_le (hline.not.2 hno))

theorem render_showsStart_ended :
    (∃ e, compile .platform "\r\r\n allow é" "base.policy" = .error e ∧
      e.span = ⟨⟨10, 3, 8⟩, ⟨12, 3, 9⟩⟩ ∧ e.ShowsStart) ∧
    ∃ e, compile .platform "module \x7b\r\n\r" "base.policy" = .error e ∧
      e.span = .point ⟨11, 3, 1⟩ ∧ ¬e.ShowsStart ∧ e.render = e.heading := by
  constructor
  · have hspan : (match compile .platform "\r\r\n allow é" "base.policy" with
        | .error e => some e.span
        | .ok _ => none) = some ⟨⟨10, 3, 8⟩, ⟨12, 3, 9⟩⟩ := by decide +kernel
    cases he : compile .platform "\r\r\n allow é" "base.policy" with
    | ok m => rw [he] at hspan; cases hspan
    | error e =>
      rw [he] at hspan
      have hspan := Option.some.inj hspan
      refine ⟨e, rfl, hspan, (render_showsStart he).1.2 (.inl ?_)⟩
      rw [source_of_compile he, hspan]
      decide
  · have hspan : (match compile .platform "module \x7b\r\n\r" "base.policy" with
        | .error e => some e.span
        | .ok _ => none) = some (.point ⟨11, 3, 1⟩) := by decide +kernel
    cases he : compile .platform "module \x7b\r\n\r" "base.policy" with
    | ok m => rw [he] at hspan; cases hspan
    | error e =>
      rw [he] at hspan
      have hspan := Option.some.inj hspan
      have hlast : "module \x7b\r\n\r".toList.getLast? = some '\r' := by decide
      have hno : ¬e.StartsOnLine := by
        rw [CompileError.StartsOnLine, source_of_compile he, hspan, hlast]
        rintro (hlt | ⟨_, ⟨⟩, hin⟩)
        · exact absurd hlt (by decide)
        · exact absurd hin (by decide)
      obtain ⟨hshown, hrender⟩ := render_showsStart he
      exact ⟨e, rfl, hspan, fun h => hno (hshown.1 h), hrender hno⟩

/-- An error at the end of a text that ends with a line break is printed without any line. -/
theorem render_without_line : ∃ e, compile .platform "require \x7b\n" "input.policy" = .error e ∧
    e.span = .point ⟨10, 2, 1⟩ ∧ '^' ∉ e.render.toList ∧
    e.render = "error: Expected 'type', found end of file\n --> input.policy:2:1\n  |\n" := by
  have hrender : (match compile .platform "require \x7b\n" "input.policy" with
      | .error e => some (e.span, e.render)
      | .ok _ => none) = some (.point ⟨10, 2, 1⟩,
        "error: Expected 'type', found end of file\n --> input.policy:2:1\n  |\n") := by
    decide +kernel
  cases he : compile .platform "require \x7b\n" "input.policy" with
  | ok m => rw [he] at hrender; cases hrender
  | error e =>
    rw [he] at hrender
    obtain ⟨hspan, hrender⟩ := Prod.mk.inj (Option.some.inj hrender)
    refine ⟨e, rfl, hspan, ?_, hrender⟩
    rw [hrender]
    decide

end GuildPolicy
