import GuildPolicy.Module.Compile
import GuildPolicy.Proofs.Syntax.Layout
import GuildPolicy.Snapshot.Basic

namespace GuildPolicy

open GuildPolicy.Source GuildPolicy.Syntax

variable {v : Vocabulary}

def SemanticError.bare (e : SemanticError) : SemanticError := ⟨e.fault, nowhere⟩

/-- The problem without its places. -/
def Problem.bare : Problem → Problem
  | .ofSyntax e => .ofSyntax e.bare
  | .ofMeaning e => .ofMeaning e.bare

theorem message_of_bare {d e : CompileError} (h : d.problem.bare = e.problem.bare) :
    d.message = e.message := by
  obtain ⟨_, _, problem⟩ := d
  obtain ⟨_, _, problem'⟩ := e
  cases problem with
  | ofSyntax p =>
    cases problem' with
    | ofSyntax q =>
      have hbare := congrArg SyntaxError.message (Problem.ofSyntax.inj h)
      rw [SyntaxError.message_bare, SyntaxError.message_bare] at hbare
      exact hbare
    | ofMeaning q => cases h
  | ofMeaning p =>
    cases problem' with
    | ofSyntax q => cases h
    | ofMeaning q =>
      have hbare := congrArg (SemanticFault.message ∘ SemanticError.fault) (Problem.ofMeaning.inj h)
      exact hbare

theorem property?_bare (block : ModuleBlock) (name : String) :
    block.bare.property? name = (block.property? name).map Property.bare := by
  rw [ModuleBlock.property?, ModuleBlock.property?, ModuleBlock.bare, ← List.map_reverse,
    List.find?_map]
  rfl

namespace Draft

theorem stringProperty_bare (block : ModuleBlock) (field : String) :
    stringProperty block.bare field = (stringProperty block field).mapError SemanticError.bare := by
  rw [stringProperty, stringProperty, property?_bare]
  cases block.property? field with
  | none => rfl
  | some p =>
    dsimp only [Option.map_some]
    rw [p.value_bare, Literal.kind_bare]
    by_cases hk : p.value.kind = .string
    · rw [if_pos hk, if_pos hk]
      rfl
    · rw [if_neg hk, if_neg hk]
      rfl

theorem versionProperty_bare (block : ModuleBlock) :
    versionProperty block.bare = (versionProperty block).mapError SemanticError.bare := by
  rw [versionProperty, versionProperty, property?_bare]
  cases block.property? "version" with
  | none => rfl
  | some p =>
    dsimp only [Option.map_some]
    rw [p.value_bare, Literal.kind_bare, Literal.value_bare]
    by_cases hk : p.value.kind = .integer
    · rw [if_pos hk, if_pos hk]
      cases Text.natBelow? UInt32.size p.value.value with
      | none => rfl
      | some n => rfl
    · rw [if_neg hk, if_neg hk]
      rfl

theorem addModule_bare (d : Draft) (block : ModuleBlock) :
    d.addModule block.bare = (d.addModule block).mapError SemanticError.bare := by
  rw [addModule, addModule, stringProperty_bare, stringProperty_bare, versionProperty_bare]
  cases stringProperty block "name" with
  | error e => rfl
  | ok name =>
    cases stringProperty block "author" with
    | error e => rfl
    | ok author =>
      cases versionProperty block with
      | error e => rfl
      | ok version => rfl

theorem addRequire_bare (d : Draft) (block : RequireBlock) :
    d.addRequire block.bare = (d.addRequire block).mapError SemanticError.bare := by
  have htypes : block.bare.types.map Name.text = block.types.map Name.text := List.map_map
  rw [addRequire, addRequire, htypes]
  cases d.required with
  | true => rfl
  | false => rfl

theorem typeId_bare (d : Draft) (name : Name) :
    d.typeId name.bare = (d.typeId name).mapError SemanticError.bare := by
  rw [typeId, typeId, name.text_bare]
  cases d.module.typeId? name.text with
  | none => rfl
  | some id => rfl

theorem targetId_bare (d : Draft) (r : Rule) :
    d.targetId r.bare = (d.targetId r).mapError SemanticError.bare := by
  have htarget : r.bare.target = r.target := rfl
  rw [targetId, targetId, htarget]
  cases r.target with
  | any => rfl
  | type name =>
    have htype := d.typeId_bare ⟨name, r.targetSpan⟩
    change some <$> d.typeId (Name.bare ⟨name, r.targetSpan⟩) =
      (some <$> d.typeId ⟨name, r.targetSpan⟩).mapError SemanticError.bare
    rw [htype]
    cases d.typeId ⟨name, r.targetSpan⟩ with
    | error e => rfl
    | ok id => rfl

theorem foldlM_mapError {ε α β γ : Type} {f : ε → ε} {g : β → γ} {step' : α → γ → Except ε α}
    {step : α → β → Except ε α} (h : ∀ a b, step' a (g b) = (step a b).mapError f) (bs : List β)
    (a : α) : (bs.map g).foldlM step' a = (bs.foldlM step a).mapError f := by
  induction bs generalizing a with
  | nil => rfl
  | cons b bs ih =>
    rw [List.map_cons, List.foldlM_cons, List.foldlM_cons, h]
    cases step a b with
    | error e => rfl
    | ok a' => exact ih a'

theorem permissions_bare (v : Vocabulary) (ps : List Name) :
    permissions v (ps.map Name.bare) = (permissions v ps).mapError SemanticError.bare := by
  apply foldlM_mapError
  intro bits p
  rw [addPermission, addPermission, p.text_bare]
  cases v.resolve p.text with
  | none => rfl
  | some flag => rfl

theorem addRule_bare (v : Vocabulary) (d : Draft) (r : Rule) :
    d.addRule v r.bare = (d.addRule v r).mapError SemanticError.bare := by
  have hsubject : r.bare.subject = r.subject.bare := rfl
  have hpermissions : r.bare.permissions = r.permissions.map Name.bare := rfl
  rw [addRule, addRule, hsubject, typeId_bare, targetId_bare, hpermissions, permissions_bare]
  cases d.typeId r.subject with
  | error e => rfl
  | ok subject =>
    cases d.targetId r with
    | error e => rfl
    | ok target =>
      cases permissions v r.permissions with
      | error e => rfl
      | ok bits => rfl

theorem add_bare (v : Vocabulary) (d : Draft) (s : Statement) :
    d.add v s.bare = (d.add v s).mapError SemanticError.bare := by
  cases s with
  | module block => exact d.addModule_bare block
  | require block => exact d.addRequire_bare block
  | rule r => exact d.addRule_bare v r

end Draft

theorem ofPolicy_bare (v : Vocabulary) (p : Policy) :
    PolicyModule.ofPolicy v p.bare =
      (PolicyModule.ofPolicy v p).mapError SemanticError.bare := by
  have hfold := Draft.foldlM_mapError (Draft.add_bare v) p.statements .blank
  rw [PolicyModule.ofPolicy, PolicyModule.ofPolicy, Policy.bare, hfold]
  cases p.statements.foldlM (Draft.add v) .blank with
  | error e => rfl
  | ok d => rfl

/-- Texts with tokens of the same kinds and values, however they are laid out, have the same syntax
tree or the same fault but for places, and the same module or the same problem. -/
theorem compile_layout {s t : String} {l k : Lexed} (hl : lex s = .ok l) (hk : lex t = .ok k)
    (h : l.words = k.words) :
    ((∃ p q, parse s = .ok p ∧ parse t = .ok q ∧ p.bare = q.bare) ∨
      ∃ d e, parse s = .error d ∧ parse t = .error e ∧ d.bare = e.bare ∧
        d.message = e.message) ∧
    ∀ v f g,
      (∃ m n, compile v s f = .ok m ∧ compile v t g = .ok n ∧ m = n ∧
        encodeModule m = encodeModule n) ∨
      ∃ d e, compile v s f = .error d ∧ compile v t g = .error e ∧
        d.problem.bare = e.problem.bare ∧ d.message = e.message := by
  have hs : parse s = l.parse := by rw [parse, hl]
  have ht : parse t = k.parse := by rw [parse, hk]
  have hparse : bareResult Policy.bare l.parse = bareResult Policy.bare k.parse := by
    rw [← Lexed.parse_bare, Lexed.bare_eq h, Lexed.parse_bare]
  rw [bareResult, bareResult] at hparse
  rcases eq_or_of_mapError hparse with ⟨p, q, hp, hq, hbare⟩ | ⟨d, e, hd, he, hbare⟩
  · rw [hs, ht]
    refine ⟨.inl ⟨p, q, hp, hq, hbare⟩, fun v f g => ?_⟩
    have hpolicy : ((PolicyModule.ofPolicy v p).map id).mapError SemanticError.bare =
        ((PolicyModule.ofPolicy v q).map id).mapError SemanticError.bare := by
      rw [Except.map_id, id, id, ← ofPolicy_bare, hbare, ofPolicy_bare]
    rw [compile, compile, hs, ht, hp, hq]
    dsimp only
    rcases eq_or_of_mapError hpolicy with ⟨m, n, hm, hn, hmn⟩ | ⟨d, e, hd, he, hbare⟩
    · rw [hm, hn]
      exact .inl ⟨m, n, rfl, rfl, hmn, congrArg encodeModule hmn⟩
    · have hproblem : (Problem.ofMeaning d).bare = (Problem.ofMeaning e).bare :=
        congrArg Problem.ofMeaning hbare
      rw [hd, he]
      exact .inr ⟨_, _, rfl, rfl, hproblem, message_of_bare hproblem⟩
  · rw [hs, ht]
    refine ⟨.inr ⟨d, e, hd, he, hbare, ?_⟩, fun v f g => ?_⟩
    · rw [← d.message_bare, hbare, e.message_bare]
    · have hproblem : (Problem.ofSyntax d).bare = (Problem.ofSyntax e).bare :=
        congrArg Problem.ofSyntax hbare
      rw [compile, compile, hs, ht, hd, he]
      exact .inr ⟨_, _, rfl, rfl, hproblem, message_of_bare hproblem⟩

/-- A policy without blanks. -/
def denseSource : String := "require\x7btype a\x7dmodule\x7bname'x\\n'\x7d"

/-- The same policy with blanks, in other quotes and with a line feed that is not spelled. -/
def spacedSource : String :=
  "require \x7b\r\n type a \x7d\n module \x7b name \"x\n\" \x7d"

theorem compile_layout_spaced :
    (∃ l k m, lex denseSource = .ok l ∧ lex spacedSource = .ok k ∧ l.words = k.words ∧
      compile .platform denseSource "a.policy" = .ok m ∧
      compile .platform spacedSource "b.policy" = .ok m) ∧
    ∃ l k d e, lex "allow a*\x7b\x7d" = .ok l ∧ lex "allow\n a * \x7b \x7d" = .ok k ∧
      l.words = k.words ∧
      compile .platform "allow a*\x7b\x7d" "a.policy" = .error d ∧
      compile .platform "allow\n a * \x7b \x7d" "b.policy" = .error e ∧
      d.message = e.message ∧ d.span.start.line = 1 ∧ e.span.start.line = 2 := by
  constructor
  · have hwords : (lex denseSource).toOption.map Lexed.words =
        (lex spacedSource).toOption.map Lexed.words := by decide +kernel
    have hok : (compile .platform denseSource "a.policy").isOk = true := by decide +kernel
    have hlexed : (lex denseSource).isOk = true := by decide +kernel
    cases hl : lex denseSource with
    | error => rw [hl] at hlexed; cases hlexed
    | ok l =>
      cases hk : lex spacedSource with
      | error => rw [hl, hk] at hwords; cases hwords
      | ok k =>
        rw [hl, hk] at hwords
        have hwords := Option.some.inj hwords
        rcases (compile_layout hl hk hwords).2 .platform "a.policy" "b.policy" with
          ⟨m, _, hm, hn, rfl, -⟩ | ⟨d, e, hd, -⟩
        · exact ⟨l, k, m, rfl, rfl, hwords, hm, hn⟩
        · rw [hd] at hok
          cases hok
  · have hwords : (lex "allow a*\x7b\x7d").toOption.map Lexed.words =
        (lex "allow\n a * \x7b \x7d").toOption.map Lexed.words := by decide +kernel
    have hlexed : (lex "allow a*\x7b\x7d").isOk = true := by decide +kernel
    have hline : (match compile .platform "allow a*\x7b\x7d" "a.policy" with
        | .error e => e.span.start.line
        | .ok _ => 0) = 1 := by decide +kernel
    have hline' : (match compile .platform "allow\n a * \x7b \x7d" "b.policy" with
        | .error e => e.span.start.line
        | .ok _ => 0) = 2 := by decide +kernel
    cases hl : lex "allow a*\x7b\x7d" with
    | error => rw [hl] at hlexed; cases hlexed
    | ok l =>
      cases hk : lex "allow\n a * \x7b \x7d" with
      | error => rw [hl, hk] at hwords; cases hwords
      | ok k =>
        rw [hl, hk] at hwords
        have hwords := Option.some.inj hwords
        rcases (compile_layout hl hk hwords).2 .platform "a.policy" "b.policy" with
          ⟨m, _, hm, -⟩ | ⟨d, e, hd, he, -, hmessage⟩
        · rw [hm] at hline
          cases hline
        · rw [hd] at hline
          rw [he] at hline'
          exact ⟨l, k, d, e, rfl, rfl, hwords, hd, he, hmessage, hline, hline'⟩

end GuildPolicy
