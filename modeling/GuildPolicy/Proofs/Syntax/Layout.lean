import GuildPolicy.Proofs.Syntax.Expressions

namespace GuildPolicy.Syntax

open GuildPolicy.Source

/-- The span of what has no place. -/
def nowhere : Span := .point .origin

theorem nowhere_to : nowhere.to nowhere = nowhere := rfl

section Bare

def Token.bare (t : Token) : Token := { t with span := nowhere }

@[simp]
theorem Token.kind_bare (t : Token) : t.bare.kind = t.kind := rfl

@[simp]
theorem Token.value_bare (t : Token) : t.bare.value = t.value := rfl

/-- What the tokens of a text say, apart from where: their kinds and values. -/
def Lexed.words (l : Lexed) : List (TokenKind × String) :=
  l.toList.map fun t => (t.kind, t.value)

def Lexed.bare (l : Lexed) : Lexed := ⟨l.tokens.map Token.bare, .origin⟩

def Literal.bare (l : Literal) : Literal := { l with span := nowhere }

@[simp]
theorem Literal.kind_bare (l : Literal) : l.bare.kind = l.kind := rfl

@[simp]
theorem Literal.value_bare (l : Literal) : l.bare.value = l.value := rfl

def Name.bare (n : Name) : Name := { n with span := nowhere }

@[simp]
theorem Name.text_bare (n : Name) : n.bare.text = n.text := rfl

def Property.bare (p : Property) : Property := ⟨p.name, p.value.bare, nowhere⟩

@[simp]
theorem Property.value_bare (p : Property) : p.bare.value = p.value.bare := rfl

def ModuleBlock.bare (b : ModuleBlock) : ModuleBlock := ⟨b.properties.map Property.bare, nowhere⟩

def RequireBlock.bare (b : RequireBlock) : RequireBlock := ⟨b.types.map Name.bare, nowhere⟩

def Rule.bare (r : Rule) : Rule :=
  ⟨r.kind, r.subject.bare, r.target, nowhere, r.permissions.map Name.bare, nowhere⟩

def Statement.bare : Statement → Statement
  | .module block => .module block.bare
  | .require block => .require block.bare
  | .rule r => .rule r.bare

@[simp]
theorem Statement.span_bare (s : Statement) : s.bare.span = nowhere := by
  cases s with
  | module | require | rule => rfl

@[simp]
theorem Statement.isModule_bare (s : Statement) : s.bare.isModule = s.isModule := by
  cases s with
  | module | require | rule => rfl

def Policy.bare (p : Policy) : Policy := ⟨p.statements.map Statement.bare, nowhere⟩

def SyntaxFault.bare : SyntaxFault → SyntaxFault
  | .expected kinds found => .expected kinds found.bare
  | .unexpected found => .unexpected found.bare
  | fault => fault

def SyntaxError.bare (e : SyntaxError) : SyntaxError := ⟨e.fault.bare, nowhere⟩

theorem SyntaxError.message_bare (e : SyntaxError) : e.bare.message = e.message := by
  obtain ⟨fault, span⟩ := e
  cases fault with
  | expected kinds found => rfl
  | unexpected found => rfl
  | _ => rfl

variable {α β : Type}

/-- What is given, or the fault, without its places. -/
def bareResult (bare : α → β) (x : Except SyntaxError α) : Except SyntaxError β :=
  (x.map bare).mapError SyntaxError.bare

/-- What was read and the tokens after it, or the fault, without their places. -/
def bareParse (bare : α → β) : Parse α → Parse β :=
  bareResult fun r => (bare r.1, r.2.map Token.bare)

@[simp]
theorem bareParse_ok (bare : α → β) (a : α) (rest : List Token) :
    bareParse bare (.ok (a, rest)) = .ok (bare a, rest.map Token.bare) := rfl

/-- A parser reads tokens without places as another reads the tokens. -/
def Ignores (bare : α → α) (read' read : List Token → Parse α) : Prop :=
  ∀ ts, read' (ts.map Token.bare) = bareParse bare (read ts)

end Bare

section Expressions

variable {eof t : Token} {ts : List Token} {l r : Literal} {op : Operator} {s : Span}

theorem ignores_expect (eof : Token) (kinds : List TokenKind) :
    Ignores Token.bare (expect eof.bare kinds) (expect eof kinds) := by
  intro ts
  cases ts with
  | nil => rfl
  | cons t ts =>
    rw [expect, List.map_cons, expect]
    apply Eq.symm
    apply apply_ite

theorem ignores_literal (eof : Token) : Ignores Literal.bare (literal eof.bare) (literal eof) := by
  intro ts
  rw [literal, literal, ignores_expect]
  cases expect eof [.string, .integer, .true, .false] ts with
  | error e => rfl
  | ok x => rfl

theorem operand_bare (op : Operator) (l : Literal) :
    operand op l.bare = bareResult id (operand op l) := by
  rw [operand, operand, l.kind_bare, l.value_bare]
  by_cases hk : l.kind ≠ .integer
  · rw [if_pos hk, if_pos hk]
    rfl
  · rw [if_neg hk, if_neg hk]
    cases Text.intOfBits? 128 l.value with
    | none => rfl
    | some n => rfl

theorem apply_bare (op : Operator) (s : Span) (r : Literal) (a b : Int) :
    op.apply nowhere r.bare a b = bareResult id (op.apply s r a b) := by
  have hrange (n : Int) :
      (if InRange n then Except.ok n else .error (⟨.overflow op, nowhere⟩ : SyntaxError)) =
        bareResult id (if InRange n then .ok n else .error ⟨.overflow op, s⟩) := by
    split
    · rfl
    · rfl
  cases op with
  | add | subtract | multiply => exact hrange _
  | divide =>
    simp only [Operator.apply]
    split
    · rfl
    · exact hrange _
  | modulo =>
    simp only [Operator.apply]
    split
    · rfl
    · by_cases hq : InRange (a.fdiv b)
      · rw [if_pos hq, if_pos hq]
        rfl
      · rw [if_neg hq, if_neg hq]
        rfl

theorem combine_bare (op : Operator) (l r : Literal) (s : Span) :
    op.combine l.bare r.bare nowhere = bareResult Literal.bare (op.combine l r s) := by
  rw [Operator.combine, Operator.combine, operand_bare, operand_bare]
  cases operand op l with
  | error e => rfl
  | ok a =>
    cases operand op r with
    | error e => rfl
    | ok b =>
      change (op.apply nowhere r.bare a b >>= _) = bareResult _ (op.apply s r a b >>= _)
      rw [apply_bare op s]
      cases op.apply s r a b with
      | error e => rfl
      | ok n => rfl

theorem negate_bare (t : Token) (l : Literal) :
    negate t.bare l.bare = bareResult Literal.bare (negate t l) := by
  have hcombine : Operator.subtract.combine ⟨.integer, "0", .point t.bare.span.start⟩ l.bare
      ((Span.point t.bare.span.start).to l.bare.span) = _ :=
    combine_bare .subtract ⟨.integer, "0", .point t.span.start⟩ l
      ((Span.point t.span.start).to l.span)
  rw [negate, negate]
  dsimp only
  rw [hcombine]
  cases Operator.subtract.combine ⟨.integer, "0", .point t.span.start⟩ l
      ((Span.point t.span.start).to l.span) with
  | error e => rfl
  | ok n => rfl

theorem ignores_unary (eof : Token) : Ignores Literal.bare (unary eof.bare) (unary eof) := by
  intro ts
  induction ts with
  | nil => exact ignores_literal eof []
  | cons t ts ih =>
    rw [List.map_cons, unary, unary, t.kind_bare]
    by_cases ht : t.kind = .minus
    · rw [if_pos ht, if_pos ht, ih]
      cases unary eof ts with
      | error e => rfl
      | ok x =>
        obtain ⟨value, rest⟩ := x
        dsimp only [bareParse_ok]
        rw [negate_bare]
        cases negate t value with
        | error e => rfl
        | ok n => rfl
    · rw [if_neg ht, if_neg ht]
      exact ignores_literal eof (t :: ts)

section Chain

variable {operator? : TokenKind → Option Operator} {operand operand' : List Token → Parse Literal}
variable {shorter : ∀ {ts l rest}, operand ts = .ok (l, rest) → rest.length < ts.length}
variable {shorter' : ∀ {ts l rest}, operand' ts = .ok (l, rest) → rest.length < ts.length}

theorem ignores_operations (hoperand : Ignores Literal.bare operand' operand) (l : Literal) :
    Ignores Literal.bare (operations operator? operand' shorter' l.bare)
      (operations operator? operand shorter l) := by
  intro ts
  -- An operator and its operand leave fewer tokens, by how many is not known.
  induction hn : ts.length using Nat.strongRecOn generalizing l ts with
  | ind n ih =>
    cases ts with
    | nil =>
      rw [List.map_nil, operations_nil, operations_nil]
      rfl
    | cons t ts =>
      rw [List.map_cons]
      cases ho : operator? t.kind with
      | none =>
        rw [operations_of_none ho, operations_of_none (t.kind_bare ▸ ho)]
        rfl
      | some op =>
        rw [operations_of_some ho, operations_of_some (t.kind_bare ▸ ho), hoperand]
        cases hr : operand ts with
        | error e => rfl
        | ok x =>
          obtain ⟨r, rest⟩ := x
          have hlt := shorter hr
          have hcombine := combine_bare op l r (l.span.to r.span)
          change (bind (m := Except SyntaxError) (op.combine l.bare r.bare nowhere) fun v =>
              operations operator? operand' shorter' v (rest.map Token.bare)) =
            bareParse Literal.bare (bind (m := Except SyntaxError)
              (op.combine l r (l.span.to r.span)) fun v =>
                operations operator? operand shorter v rest)
          rw [hcombine]
          cases op.combine l r (l.span.to r.span) with
          | error e => rfl
          | ok v =>
            rw [List.length_cons] at hn
            exact ih rest.length (by omega) v rest rfl

theorem ignores_chain (hoperand : Ignores Literal.bare operand' operand) :
    Ignores Literal.bare (chain operator? operand' shorter') (chain operator? operand shorter) := by
  intro ts
  rw [chain, chain, hoperand]
  cases operand ts with
  | error e => rfl
  | ok x => exact ignores_operations hoperand x.1 x.2

end Chain

theorem ignores_sum (eof : Token) : Ignores Literal.bare (sum eof.bare) (sum eof) :=
  ignores_chain (ignores_chain (ignores_unary eof))

end Expressions

section Statements

variable {α : Type} {bare : α → α} {eof : Token} {ts : List Token}

theorem skipSemicolons_bare (ts : List Token) :
    skipSemicolons (ts.map Token.bare) = (skipSemicolons ts).map Token.bare := by
  rw [skipSemicolons, skipSemicolons, List.dropWhile_map]
  rfl

theorem isNext_bare (kind : TokenKind) (ts : List Token) :
    isNext kind (ts.map Token.bare) = isNext kind ts := by
  cases ts with
  | nil => rfl
  | cons t ts => rfl

section Items

variable {item item' : List Token → Parse α}
variable (shorter : ∀ {ts a rest}, item ts = .ok (a, rest) → rest.length < ts.length)
variable (shorter' : ∀ {ts a rest}, item' ts = .ok (a, rest) → rest.length < ts.length)

/-- Items and the brace that closes them, without their places. -/
def bareItems (bare : α → α) (r : List α × Token) : List α × Token := (r.1.map bare, r.2.bare)

theorem ignores_items (hitem : Ignores bare item' item) :
    Ignores (bareItems bare) (items eof.bare item' shorter') (items eof item shorter) := by
  intro ts
  have hnext := isNext_bare .braceClose ts
  fun_induction items eof item shorter ts with
  | case1 ts hclosed brace rest h =>
    rw [items, if_pos (hnext ▸ hclosed), ignores_expect, h]
    rfl
  | case2 ts hclosed e h =>
    rw [items, if_pos (hnext ▸ hclosed), ignores_expect, h]
    rfl
  | case3 ts hopen e h =>
    rw [items, if_neg (hnext ▸ hopen), hitem, h]
    rfl
  | case4 ts hopen a rest h as brace rest' hrest ih =>
    rw [items, if_neg (hnext ▸ hopen), hitem, h]
    dsimp only [bareParse_ok]
    rw [skipSemicolons_bare, ih (isNext_bare ..), hrest]
    rfl
  | case5 ts hopen a rest h e he ih =>
    rw [items, if_neg (hnext ▸ hopen), hitem, h]
    dsimp only [bareParse_ok]
    rw [skipSemicolons_bare, ih (isNext_bare ..), he]
    rfl

theorem ignores_block (hitem : Ignores bare item' item) :
    Ignores (bareItems bare) (block eof.bare item' shorter') (block eof item shorter) := by
  intro ts
  rw [block, block, ignores_expect]
  cases expect eof [.braceOpen] ts with
  | error e => rfl
  | ok x => exact ignores_items shorter shorter' hitem x.2

end Items

theorem ignores_property (eof : Token) :
    Ignores Property.bare (property eof.bare) (property eof) := by
  intro ts
  rw [property, property, ignores_expect]
  cases expect eof [.identifier] ts with
  | error e => rfl
  | ok x =>
    obtain ⟨name, rest⟩ := x
    dsimp only [bareParse_ok]
    rw [name.value_bare]
    by_cases hname : name.value ∈ propertyNames
    · rw [if_pos hname, if_pos hname, ignores_sum]
      cases sum eof rest with
      | error e => rfl
      | ok x => rfl
    · rw [if_neg hname, if_neg hname]
      rfl

theorem ignores_requiredType (eof : Token) :
    Ignores Name.bare (requiredType eof.bare) (requiredType eof) := by
  intro ts
  rw [requiredType, requiredType, ignores_expect]
  cases expect eof [.type] ts with
  | error e => rfl
  | ok x =>
    obtain ⟨keyword, rest⟩ := x
    dsimp only [bareParse_ok]
    rw [ignores_expect]
    cases expect eof [.identifier] rest with
    | error e => rfl
    | ok x => rfl

theorem ignores_moduleBlock (eof : Token) (seen : Bool) :
    Ignores ModuleBlock.bare (moduleBlock eof.bare seen) (moduleBlock eof seen) := by
  intro ts
  rw [moduleBlock, moduleBlock, ignores_expect]
  cases expect eof [.module] ts with
  | error e => rfl
  | ok x =>
    obtain ⟨keyword, rest⟩ := x
    dsimp only [bareParse_ok]
    cases seen with
    | true => rfl
    | false =>
      rw [ignores_block length_lt_of_property length_lt_of_property (ignores_property eof)]
      cases block eof (property eof) length_lt_of_property rest with
      | error e => rfl
      | ok x => rfl

theorem ignores_requireBlock (eof : Token) :
    Ignores RequireBlock.bare (requireBlock eof.bare) (requireBlock eof) := by
  intro ts
  rw [requireBlock, requireBlock, ignores_expect]
  cases expect eof [.require] ts with
  | error e => rfl
  | ok x =>
    obtain ⟨keyword, rest⟩ := x
    dsimp only [bareParse_ok]
    rw [ignores_block length_lt_of_requiredType length_lt_of_requiredType
      (ignores_requiredType eof)]
    cases block eof (requiredType eof) length_lt_of_requiredType rest with
    | error e => rfl
    | ok x => rfl

theorem names_bare (ts : List Token) :
    names (ts.map Token.bare) = ((names ts).1.map Name.bare, (names ts).2.map Token.bare) := by
  fun_induction names ts with
  | case1 => rfl
  | case2 t ht =>
    rw [List.map_singleton, names, t.kind_bare, if_pos ht]
    rfl
  | case3 t ht c rest hc others rest' h ih =>
    rw [List.map_cons, List.map_cons, names, t.kind_bare, c.kind_bare, if_pos ht, if_pos hc, ih, h]
    rfl
  | case4 t ht c rest hc =>
    rw [List.map_cons, List.map_cons, names, t.kind_bare, c.kind_bare, if_pos ht, if_neg hc]
    rfl
  | case5 t rest ht =>
    cases rest with
    | nil =>
      rw [List.map_singleton, names, t.kind_bare, if_neg ht]
      rfl
    | cons c rest =>
      rw [List.map_cons, List.map_cons, names, t.kind_bare, if_neg ht]
      rfl

theorem ignores_rule (eof : Token) : Ignores Rule.bare (rule eof.bare) (rule eof) := by
  intro ts
  rw [rule, rule, ignores_expect]
  cases expect eof [.allow, .deny] ts with
  | error e => rfl
  | ok x =>
  obtain ⟨keyword, rest⟩ := x
  dsimp only [bareParse_ok]
  rw [ignores_expect]
  cases expect eof [.identifier] rest with
  | error e => rfl
  | ok x =>
  obtain ⟨subject, rest⟩ := x
  dsimp only [bareParse_ok]
  rw [ignores_expect]
  cases expect eof [.identifier, .star] rest with
  | error e => rfl
  | ok x =>
  obtain ⟨target, rest⟩ := x
  dsimp only [bareParse_ok]
  rw [ignores_expect]
  cases expect eof [.braceOpen] rest with
  | error e => rfl
  | ok x =>
  obtain ⟨brace, rest⟩ := x
  dsimp only [bareParse_ok]
  rw [names_bare, ignores_expect]
  cases expect eof [.braceClose] (names rest).2 with
  | error e => rfl
  | ok x => rfl

theorem ignores_statement (eof : Token) (seen : Bool) :
    Ignores Statement.bare (statement eof.bare seen) (statement eof seen) := by
  intro ts
  have hnext : (ts.map Token.bare).headD eof.bare = (ts.headD eof).bare := by
    cases ts with
    | nil => rfl
    | cons t ts => rfl
  rw [statement, statement, hnext, Token.kind_bare, ignores_rule, ignores_moduleBlock,
    ignores_requireBlock]
  cases (ts.headD eof).kind with
  | allow | deny =>
    cases rule eof ts with
    | error e => rfl
    | ok x => rfl
  | module =>
    cases moduleBlock eof seen ts with
    | error e => rfl
    | ok x => rfl
  | require =>
    cases requireBlock eof ts with
    | error e => rfl
    | ok x => rfl
  | _ => rfl

theorem statements_bare (eof : Token) (seen : Bool) (ts : List Token) :
    statements eof.bare seen (ts.map Token.bare) =
      bareResult (List.map Statement.bare) (statements eof seen ts) := by
  fun_induction statements eof seen ts with
  | case1 =>
    rw [List.map_nil, statements]
    rfl
  | case2 seen t ts e h =>
    have hstatement := ignores_statement eof seen (t :: ts)
    rw [h, List.map_cons] at hstatement
    rw [List.map_cons, statements, hstatement]
    rfl
  | case3 seen t ts s rest h others hothers ih =>
    have hstatement := ignores_statement eof seen (t :: ts)
    rw [h, List.map_cons] at hstatement
    rw [List.map_cons, statements, hstatement]
    dsimp only [bareParse_ok]
    rw [skipSemicolons_bare, s.isModule_bare, ih, hothers]
    rfl
  | case4 seen t ts s rest h e he ih =>
    have hstatement := ignores_statement eof seen (t :: ts)
    rw [h, List.map_cons] at hstatement
    rw [List.map_cons, statements, hstatement]
    dsimp only [bareParse_ok]
    rw [skipSemicolons_bare, s.isModule_bare, ih, he]
    rfl

theorem statementsSpan_bare (ss : List Statement) :
    statementsSpan (ss.map Statement.bare) = nowhere := by
  rw [statementsSpan, List.head?_map, List.getLast?_map]
  cases ss.head? with
  | none => rfl
  | some first =>
    cases ss.getLast? with
    | none => rfl
    | some last =>
      dsimp only [Option.map_some]
      rw [first.span_bare, last.span_bare, nowhere_to]

theorem Lexed.parse_bare (l : Lexed) : l.bare.parse = bareResult Policy.bare l.parse := by
  have hstatements : statements (.endOfFile l.bare.stop) false l.bare.tokens = _ :=
    statements_bare (.endOfFile l.stop) false l.tokens
  rw [Lexed.parse, Lexed.parse, hstatements]
  cases statements (.endOfFile l.stop) false l.tokens with
  | error e => rfl
  | ok ss => exact congrArg Except.ok (congrArg (Policy.mk _) (statementsSpan_bare ss))

/-- Tokens of the same kinds and values are the same without their places. -/
theorem Lexed.bare_eq {l k : Lexed} (h : l.words = k.words) : l.bare = k.bare := by
  rw [Lexed.words, Lexed.words, Lexed.toList, Lexed.toList, List.map_append, List.map_append] at h
  have htokens := congrArg (List.map fun x : TokenKind × String => (⟨x.1, x.2, nowhere⟩ : Token))
    (List.append_cancel_right h)
  rw [List.map_map, List.map_map] at htokens
  exact congrArg (Lexed.mk · .origin) htokens

end Statements

end GuildPolicy.Syntax
