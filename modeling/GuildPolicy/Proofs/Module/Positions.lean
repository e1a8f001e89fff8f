import GuildPolicy.Proofs.Module.Compile
import GuildPolicy.Proofs.Syntax.Positions

namespace GuildPolicy

open GuildPolicy.Source GuildPolicy.Syntax

variable {v : Vocabulary} {known : List String} {before : List Statement} {s : Statement}
variable {f : SemanticError} {block : ModuleBlock} {field : String} {p : Property} {name : Name}

theorem mem_spans_of_property? (h : block.property? field = some p) {span : Span}
    (hspan : span ∈ p.spans) : span ∈ (Statement.module block).spans := by
  have hp : p ∈ block.properties := List.mem_reverse.1 (List.mem_of_find?_eq_some h)
  exact List.mem_cons_of_mem _ (List.mem_flatMap.2 ⟨p, hp, hspan⟩)

theorem span_of_stringFaults (h : f ∈ stringFaults field p) : f.span = p.span := by
  rw [stringFaults] at h
  split at h
  · cases h
  · rw [List.mem_singleton.1 h]

theorem span_of_versionFaults (h : f ∈ versionFaults p) : f.span ∈ p.spans := by
  rw [versionFaults] at h
  split at h
  · rw [List.mem_singleton.1 h]
    exact List.mem_cons_self ..
  split at h
  · cases h
  · rw [List.mem_singleton.1 h]
    exact List.mem_cons_of_mem _ (List.mem_singleton_self _)

theorem span_of_typeFaults (h : f ∈ typeFaults known name) : f.span = name.span := by
  rw [typeFaults] at h
  split at h
  · cases h
  · rw [List.mem_singleton.1 h]

theorem span_of_targetFaults {r : Rule} (h : f ∈ targetFaults known r) :
    f.span = r.targetSpan := by
  rw [targetFaults] at h
  split at h
  · cases h
  · exact span_of_typeFaults h

theorem span_of_permissionFaults (h : f ∈ permissionFaults v name) : f.span = name.span := by
  rw [permissionFaults] at h
  split at h
  · cases h
  · rw [List.mem_singleton.1 h]

theorem span_mem_spans_of_fault (h : f ∈ statementFaults v before s) : f.span ∈ s.spans := by
  cases s with
  | module block =>
    rcases List.mem_append.1 h with h | h
    · rcases List.mem_append.1 h with h | h
      all_goals
        obtain ⟨p, hp, hf⟩ := List.mem_flatMap.1 h
        refine mem_spans_of_property? (Option.mem_toList.1 hp) ?_
        rw [span_of_stringFaults hf]
        exact List.mem_cons_self ..
    · obtain ⟨p, hp, hf⟩ := List.mem_flatMap.1 h
      exact mem_spans_of_property? (Option.mem_toList.1 hp) (span_of_versionFaults hf)
  | require block =>
    rw [statementFaults] at h
    split at h
    · rw [List.mem_singleton.1 h]
      exact List.mem_cons_self ..
    · cases h
  | rule r =>
    rcases List.mem_append.1 h with h | h
    · rcases List.mem_append.1 h with h | h
      · rw [span_of_typeFaults h]
        exact List.mem_cons_of_mem _ (List.mem_cons_self ..)
      · rw [span_of_targetFaults h]
        exact List.mem_cons_of_mem _ (List.mem_cons_of_mem _ (List.mem_cons_self ..))
    · obtain ⟨name, hname, hf⟩ := List.mem_flatMap.1 h
      rw [span_of_permissionFaults hf]
      refine List.mem_cons_of_mem _ (List.mem_cons_of_mem _ (List.mem_cons_of_mem _ ?_))
      exact List.mem_map_of_mem hname

theorem compile_isIn {source filename : String} {e : CompileError}
    (h : compile v source filename = .error e) : e.span.IsIn source.toList := by
  have hparse := parse_isIn source
  rw [compile] at h
  split at h
  · next e he =>
    cases h
    exact hparse.error he
  next p hp =>
  rcases ofPolicy_cases (v := v) hp with ⟨-, m, hm, -⟩ | ⟨-, _, s, _, f, _, hss, -, hfaults, hf⟩
  · rw [hm] at h
    cases h
  · rw [hf] at h
    cases h
    have hs : s ∈ p.statements := hss ▸ List.mem_append_right _ (List.mem_cons_self ..)
    have hspan := span_mem_spans_of_fault (hfaults ▸ List.mem_cons_self ..)
    exact hparse.ok hp f.span (List.mem_cons_of_mem _ (List.mem_flatMap.2 ⟨s, hs, hspan⟩))

/-- The spans of all tokens and of all nodes of a syntax tree, and those of all faults that are
found on the way to a module, lie in the text and begin and end at places of it. -/
theorem reports_isIn (v : Vocabulary) (source filename : String) :
    (∀ l, lex source = .ok l → ∀ t ∈ l.toList, t.span.IsIn source.toList) ∧
    (∀ e, lex source = .error e → e.span.IsIn source.toList) ∧
    (∀ p, parse source = .ok p → ∀ s ∈ p.spans, s.IsIn source.toList) ∧
    (∀ e, parse source = .error e → e.span.IsIn source.toList) ∧
    ∀ e, compile v source filename = .error e → e.span.IsIn source.toList := by
  have hlex := lexFrom_isIn (Position.precedes_origin source.toList)
  have hparse := parse_isIn source
  exact ⟨fun _ => hlex.ok, fun _ => hlex.error, fun _ => hparse.ok, fun _ => hparse.error,
    fun _ => compile_isIn⟩

/-- A line that ends inside a string and one that ends after it, a fault that ends between a
carriage return and its line feed, a sign on another line than its operand, and a type that no block
lists. -/
theorem reports_isIn_breaks :
    (∃ l, lex "'é\r'\r\nx" = .ok l ∧ l.toList.map Token.span =
        [⟨⟨0, 1, 1⟩, ⟨5, 2, 2⟩⟩, ⟨⟨7, 3, 1⟩, ⟨8, 3, 2⟩⟩, .point ⟨8, 3, 2⟩] ∧
      ∀ t ∈ l.toList, t.span.IsIn "'é\r'\r\nx".toList) ∧
    (∃ e, lex "'\\\r\n" = .error e ∧ parse "'\\\r\n" = .error e ∧
      e.span = ⟨⟨1, 1, 2⟩, ⟨3, 1, 3⟩⟩ ∧ e.span.IsIn "'\\\r\n".toList) ∧
    (∃ p, parse "module\x7bversion -\r\n1\x7d" = .ok p ∧ p.spans =
        [⟨⟨0, 1, 1⟩, ⟨20, 2, 3⟩⟩, ⟨⟨0, 1, 1⟩, ⟨20, 2, 3⟩⟩, ⟨⟨7, 1, 8⟩, ⟨19, 2, 2⟩⟩,
          ⟨⟨15, 1, 16⟩, ⟨19, 2, 2⟩⟩] ∧
      ∀ s ∈ p.spans, s.IsIn "module\x7bversion -\r\n1\x7d".toList) ∧
    ∃ e, compile .platform "\rallow a * \x7b\x7d" "base.policy" = .error e ∧
      e.span = ⟨⟨7, 2, 7⟩, ⟨8, 2, 8⟩⟩ ∧ e.span.IsIn "\rallow a * \x7b\x7d".toList := by
  refine ⟨?_, ?_, ?_, ?_⟩
  · have hspans : (lex "'é\r'\r\nx").toOption.map (·.toList.map Token.span) =
        some [⟨⟨0, 1, 1⟩, ⟨5, 2, 2⟩⟩, ⟨⟨7, 3, 1⟩, ⟨8, 3, 2⟩⟩, .point ⟨8, 3, 2⟩] := by decide +kernel
    cases hl : lex "'é\r'\r\nx" with
    | error e => rw [hl] at hspans; cases hspans
    | ok l =>
      rw [hl] at hspans
      exact ⟨l, rfl, Option.some.inj hspans, (reports_isIn .platform _ "base.policy").1 l hl⟩
  · have hspan : (match lex "'\\\r\n" with
        | .error e => some e.span
        | .ok _ => none) = some ⟨⟨1, 1, 2⟩, ⟨3, 1, 3⟩⟩ := by decide +kernel
    cases he : lex "'\\\r\n" with
    | ok l => rw [he] at hspan; cases hspan
    | error e =>
      rw [he] at hspan
      have hparse : parse "'\\\r\n" = .error e := by rw [parse, he]
      exact ⟨e, rfl, hparse, Option.some.inj hspan,
        (reports_isIn .platform _ "base.policy").2.2.2.1 e hparse⟩
  · have hspans : (parse "module\x7bversion -\r\n1\x7d").toOption.map Policy.spans = some
        [⟨⟨0, 1, 1⟩, ⟨20, 2, 3⟩⟩, ⟨⟨0, 1, 1⟩, ⟨20, 2, 3⟩⟩, ⟨⟨7, 1, 8⟩, ⟨19, 2, 2⟩⟩,
          ⟨⟨15, 1, 16⟩, ⟨19, 2, 2⟩⟩] := by decide +kernel
    cases hp : parse "module\x7bversion -\r\n1\x7d" with
    | error e => rw [hp] at hspans; cases hspans
    | ok p =>
      rw [hp] at hspans
      exact ⟨p, rfl, Option.some.inj hspans, (reports_isIn .platform _ "base.policy").2.2.1 p hp⟩
  · have hspan : (match compile .platform "\rallow a * \x7b\x7d" "base.policy" with
        | .error e => some e.span
        | .ok _ => none) = some ⟨⟨7, 2, 7⟩, ⟨8, 2, 8⟩⟩ := by decide +kernel
    cases he : compile .platform "\rallow a * \x7b\x7d" "base.policy" with
    | ok m => rw [he] at hspan; cases hspan
    | error e =>
      rw [he] at hspan
      exact ⟨e, rfl, Option.some.inj hspan, (reports_isIn _ _ _).2.2.2.2 e he⟩

end GuildPolicy
