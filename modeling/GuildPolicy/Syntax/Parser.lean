import GuildPolicy.Syntax.Arithmetic
import GuildPolicy.Syntax.Lexer

namespace GuildPolicy.Syntax

open GuildPolicy.Source

/-- What was read, and the tokens after it. Parsers take the tokens that are left, and `eof`, the
token to name in messages when none is left. -/
abbrev Parse (α : Type) := Except SyntaxError (α × List Token)

def isNext (kind : TokenKind) : List Token → Bool
  | t :: _ => t.kind = kind
  | [] => false

/-- The next token, which must be of one of the kinds. -/
def expect (eof : Token) (kinds : List TokenKind) : List Token → Parse Token
  | t :: rest => if t.kind ∈ kinds then .ok (t, rest) else .error ⟨.expected kinds t, t.span⟩
  | [] => .error ⟨.expected kinds eof, eof.span⟩

def skipSemicolons (ts : List Token) : List Token := ts.dropWhile (·.kind = .semicolon)

theorem length_lt_of_expect {eof t : Token} {kinds : List TokenKind} {ts rest : List Token}
    (h : expect eof kinds ts = .ok (t, rest)) : rest.length < ts.length := by
  cases ts with
  | nil => simp [expect] at h
  | cons u us =>
    simp only [expect] at h
    split at h
    · simp_all
    · simp at h

theorem length_skipSemicolons_le (ts : List Token) :
    (skipSemicolons ts).length ≤ ts.length :=
  (List.dropWhile_sublist _).length_le

def LiteralKind.ofToken : TokenKind → LiteralKind
  | .string => .string
  | .integer => .integer
  | _ => .boolean

def literal (eof : Token) (ts : List Token) : Parse Literal :=
  match expect eof [.string, .integer, .true, .false] ts with
  | .ok (t, rest) => .ok (⟨.ofToken t.kind, t.value, t.span⟩, rest)
  | .error e => .error e

/-- The constant that a minus sign in front of `value` amounts to: zero less the value. -/
def negate (minus : Token) (value : Literal) : Except SyntaxError Literal :=
  let zero : Literal := ⟨.integer, "0", .point minus.span.start⟩
  match Operator.subtract.combine zero value (zero.span.to value.span) with
  | .ok n => .ok { n with span := minus.span.to n.span }
  | .error e => .error e

def unary (eof : Token) : List Token → Parse Literal
  | [] => literal eof []
  | t :: rest =>
    if t.kind = .minus then
      match unary eof rest with
      | .ok (value, rest) =>
        match negate t value with
        | .ok n => .ok (n, rest)
        | .error e => .error e
      | .error e => .error e
    else literal eof (t :: rest)

def Operator.ofFactor? : TokenKind → Option Operator
  | .star => some .multiply
  | .slash => some .divide
  | .percent => some .modulo
  | _ => none

def Operator.ofSummand? : TokenKind → Option Operator
  | .plus => some .add
  | .minus => some .subtract
  | _ => none

theorem length_lt_of_literal {eof : Token} {ts rest : List Token} {l : Literal}
    (h : literal eof ts = .ok (l, rest)) : rest.length < ts.length := by
  unfold literal at h
  split at h
  · next he =>
    simp only [Except.ok.injEq, Prod.mk.injEq] at h
    exact h.2 ▸ length_lt_of_expect he
  · simp at h

theorem length_lt_of_unary {eof : Token} {ts rest : List Token} {l : Literal}
    (h : unary eof ts = .ok (l, rest)) : rest.length < ts.length := by
  induction ts generalizing l with
  | nil => exact length_lt_of_literal h
  | cons t ts ih =>
    simp only [unary] at h
    split at h
    · split at h
      · next hu =>
        split at h
        · simp only [Except.ok.injEq, Prod.mk.injEq] at h
          have := ih (h.2 ▸ hu)
          simp only [List.length_cons]
          omega
        · simp at h
      · simp at h
    · exact length_lt_of_literal h

/-- The rest of a chain that begins with `left`: operators with operands, carried out from the
left. -/
def operations (operator? : TokenKind → Option Operator) (operand : List Token → Parse Literal)
    (shorter : ∀ {ts l rest}, operand ts = .ok (l, rest) → rest.length < ts.length)
    (left : Literal) (ts : List Token) : Parse Literal :=
  match ts with
  | [] => .ok (left, [])
  | t :: rest =>
    match operator? t.kind with
    | none => .ok (left, t :: rest)
    | some op =>
      match _h : operand rest with
      | .error e => .error e
      | .ok (right, rest) =>
        match op.combine left right (left.span.to right.span) with
        | .error e => .error e
        | .ok value => operations operator? operand shorter value rest
termination_by ts.length
decreasing_by
  have := shorter _h
  simp only [List.length_cons]
  omega

/-- Operands with operators of one precedence between them. -/
def chain (operator? : TokenKind → Option Operator) (operand : List Token → Parse Literal)
    (shorter : ∀ {ts l rest}, operand ts = .ok (l, rest) → rest.length < ts.length)
    (ts : List Token) : Parse Literal :=
  match operand ts with
  | .ok (left, rest) => operations operator? operand shorter left rest
  | .error e => .error e

theorem length_le_of_operations {operator? : TokenKind → Option Operator}
    {operand : List Token → Parse Literal}
    {shorter : ∀ {ts l rest}, operand ts = .ok (l, rest) → rest.length < ts.length}
    {left l : Literal} {ts rest : List Token}
    (h : operations operator? operand shorter left ts = .ok (l, rest)) :
    rest.length ≤ ts.length := by
  fun_induction operations operator? operand shorter left ts with
  | case1 => simp_all
  | case2 => simp_all
  | case3 => simp at h
  | case4 => simp at h
  | case5 left t ts op _ right rest' hr value _ ih =>
    have := shorter hr
    have := ih h
    simp only [List.length_cons]
    omega

theorem length_lt_of_chain {operator? : TokenKind → Option Operator}
    {operand : List Token → Parse Literal}
    {shorter : ∀ {ts l rest}, operand ts = .ok (l, rest) → rest.length < ts.length}
    {ts rest : List Token} {l : Literal}
    (h : chain operator? operand shorter ts = .ok (l, rest)) : rest.length < ts.length := by
  unfold chain at h
  split at h
  · next ho => exact Nat.lt_of_le_of_lt (length_le_of_operations h) (shorter ho)
  · simp at h

def product (eof : Token) : List Token → Parse Literal :=
  chain Operator.ofFactor? (unary eof) length_lt_of_unary

theorem length_lt_of_product {eof : Token} {ts rest : List Token} {l : Literal}
    (h : product eof ts = .ok (l, rest)) : rest.length < ts.length := by
  unfold product at h
  exact length_lt_of_chain h

/-- A whole expression, as the constant that it amounts to. Arithmetic is carried out as soon as an
operation is complete, so that a fault of arithmetic is reported before any fault of syntax further
on. -/
def sum (eof : Token) : List Token → Parse Literal :=
  chain Operator.ofSummand? (product eof) length_lt_of_product

theorem length_lt_of_sum {eof : Token} {ts rest : List Token} {l : Literal}
    (h : sum eof ts = .ok (l, rest)) : rest.length < ts.length := by
  unfold sum at h
  exact length_lt_of_chain h

/-- Items, each followed by any number of semicolons, up to a closing brace; with the brace. -/
def items {α : Type} (eof : Token) (item : List Token → Parse α)
    (shorter : ∀ {ts a rest}, item ts = .ok (a, rest) → rest.length < ts.length)
    (ts : List Token) : Parse (List α × Token) :=
  if isNext .braceClose ts then
    match expect eof [.braceClose] ts with
    | .ok (brace, rest) => .ok (([], brace), rest)
    | .error e => .error e
  else
    match _h : item ts with
    | .error e => .error e
    | .ok (a, rest) =>
      match items eof item shorter (skipSemicolons rest) with
      | .ok ((as, brace), rest) => .ok ((a :: as, brace), rest)
      | .error e => .error e
termination_by ts.length
decreasing_by exact Nat.lt_of_le_of_lt (length_skipSemicolons_le rest) (shorter _h)

def block {α : Type} (eof : Token) (item : List Token → Parse α)
    (shorter : ∀ {ts a rest}, item ts = .ok (a, rest) → rest.length < ts.length)
    (ts : List Token) : Parse (List α × Token) :=
  match expect eof [.braceOpen] ts with
  | .ok (_, rest) => items eof item shorter rest
  | .error e => .error e

def property (eof : Token) (ts : List Token) : Parse Property :=
  match expect eof [.identifier] ts with
  | .error e => .error e
  | .ok (name, rest) =>
    if name.value ∈ propertyNames then
      match sum eof rest with
      | .ok (value, rest) => .ok (⟨name.value, value, name.span.to value.span⟩, rest)
      | .error e => .error e
    else .error ⟨.unknownProperty name.value, name.span⟩

def requiredType (eof : Token) (ts : List Token) : Parse Name :=
  match expect eof [.type] ts with
  | .error e => .error e
  | .ok (keyword, rest) =>
    match expect eof [.identifier] rest with
    | .ok (name, rest) => .ok (⟨name.value, keyword.span.to name.span⟩, rest)
    | .error e => .error e

theorem length_lt_of_property {eof : Token} {ts rest : List Token} {p : Property}
    (h : property eof ts = .ok (p, rest)) : rest.length < ts.length := by
  unfold property at h
  split at h
  · simp at h
  · next he =>
    have := length_lt_of_expect he
    split at h
    · split at h
      · next hs =>
        simp only [Except.ok.injEq, Prod.mk.injEq] at h
        have := length_lt_of_sum (h.2 ▸ hs)
        omega
      · simp at h
    · simp at h

theorem length_lt_of_requiredType {eof : Token} {ts rest : List Token} {n : Name}
    (h : requiredType eof ts = .ok (n, rest)) : rest.length < ts.length := by
  unfold requiredType at h
  split at h
  · simp at h
  · next he =>
    have := length_lt_of_expect he
    split at h
    · next hi =>
      simp only [Except.ok.injEq, Prod.mk.injEq] at h
      have := length_lt_of_expect (h.2 ▸ hi)
      omega
    · simp at h

theorem length_lt_of_items {α : Type} {eof : Token} {item : List Token → Parse α}
    {shorter : ∀ {ts a rest}, item ts = .ok (a, rest) → rest.length < ts.length}
    {ts rest : List Token} {r : List α × Token}
    (h : items eof item shorter ts = .ok (r, rest)) : rest.length < ts.length := by
  fun_induction items eof item shorter ts generalizing r with
  | case1 ts _ brace rest' he =>
    simp only [Except.ok.injEq, Prod.mk.injEq] at h
    exact h.2 ▸ length_lt_of_expect he
  | case2 => simp at h
  | case3 => simp at h
  | case4 ts _ a rest' hi as brace rest'' hs ih =>
    simp only [Except.ok.injEq, Prod.mk.injEq] at h
    have := ih (h.2 ▸ hs)
    have := length_skipSemicolons_le rest'
    have := shorter hi
    omega
  | case5 => simp at h

theorem length_lt_of_block {α : Type} {eof : Token} {item : List Token → Parse α}
    {shorter : ∀ {ts a rest}, item ts = .ok (a, rest) → rest.length < ts.length}
    {ts rest : List Token} {r : List α × Token}
    (h : block eof item shorter ts = .ok (r, rest)) : rest.length < ts.length := by
  unfold block at h
  split at h
  · next he => exact Nat.lt_trans (length_lt_of_items h) (length_lt_of_expect he)
  · simp at h

/-- A module block; `seen` says that the file has one already. -/
def moduleBlock (eof : Token) (seen : Bool) (ts : List Token) : Parse ModuleBlock :=
  match expect eof [.module] ts with
  | .error e => .error e
  | .ok (keyword, rest) =>
    if seen then .error ⟨.secondModule, keyword.span⟩
    else
      match block eof (property eof) length_lt_of_property rest with
      | .ok ((properties, brace), rest) => .ok (⟨properties, keyword.span.to brace.span⟩, rest)
      | .error e => .error e

def requireBlock (eof : Token) (ts : List Token) : Parse RequireBlock :=
  match expect eof [.require] ts with
  | .error e => .error e
  | .ok (keyword, rest) =>
    match block eof (requiredType eof) length_lt_of_requiredType rest with
    | .ok ((types, brace), rest) => .ok (⟨types, keyword.span.to brace.span⟩, rest)
    | .error e => .error e

def Token.toName (t : Token) : Name := ⟨t.value, t.span⟩

/-- Names with commas between them; one more comma may follow. -/
def names : List Token → List Name × List Token
  | [] => ([], [])
  | t :: rest =>
    if t.kind = .identifier then
      match rest with
      | [] => ([t.toName], [])
      | c :: rest' =>
        if c.kind = .comma then
          match names rest' with
          | (others, rest) => (t.toName :: others, rest)
        else ([t.toName], rest)
    else ([], t :: rest)

def RuleKind.ofToken (kind : TokenKind) : RuleKind := if kind = .allow then .allow else .deny

def Target.ofToken (t : Token) : Target := if t.kind = .star then .any else .type t.value

def rule (eof : Token) (ts : List Token) : Parse Rule :=
  match expect eof [.allow, .deny] ts with
  | .error e => .error e
  | .ok (keyword, rest) =>
    match expect eof [.identifier] rest with
    | .error e => .error e
    | .ok (subject, rest) =>
      match expect eof [.identifier, .star] rest with
      | .error e => .error e
      | .ok (target, rest) =>
        match expect eof [.braceOpen] rest with
        | .error e => .error e
        | .ok (_, rest) =>
          match names rest with
          | (permissions, rest) =>
            match expect eof [.braceClose] rest with
            | .error e => .error e
            | .ok (brace, rest) =>
              .ok (⟨.ofToken keyword.kind, subject.toName, .ofToken target, target.span,
                permissions, keyword.span.to brace.span⟩, rest)

theorem length_names_le (ts : List Token) : (names ts).2.length ≤ ts.length := by
  fun_induction names ts with
  | case1 => simp
  | case2 => simp
  | case3 t _ c rest' _ others rest h ih =>
    simp only [h, List.length_cons] at ih ⊢
    omega
  | case4 => simp
  | case5 => simp

theorem length_lt_of_moduleBlock {eof : Token} {seen : Bool} {ts rest : List Token}
    {b : ModuleBlock} (h : moduleBlock eof seen ts = .ok (b, rest)) : rest.length < ts.length := by
  unfold moduleBlock at h
  split at h
  · simp at h
  · next he =>
    have := length_lt_of_expect he
    split at h
    · simp at h
    · split at h
      · next hb =>
        simp only [Except.ok.injEq, Prod.mk.injEq] at h
        have := length_lt_of_block (h.2 ▸ hb)
        omega
      · simp at h

theorem length_lt_of_requireBlock {eof : Token} {ts rest : List Token} {b : RequireBlock}
    (h : requireBlock eof ts = .ok (b, rest)) : rest.length < ts.length := by
  unfold requireBlock at h
  split at h
  · simp at h
  · next he =>
    have := length_lt_of_expect he
    split at h
    · next hb =>
      simp only [Except.ok.injEq, Prod.mk.injEq] at h
      have := length_lt_of_block (h.2 ▸ hb)
      omega
    · simp at h

theorem length_lt_of_rule {eof : Token} {ts rest : List Token} {r : Rule}
    (h : rule eof ts = .ok (r, rest)) : rest.length < ts.length := by
  unfold rule at h
  split at h
  · simp at h
  next hk =>
  split at h
  · simp at h
  next hs =>
  split at h
  · simp at h
  next ht =>
  split at h
  · simp at h
  next rest₄ ho =>
  split at h
  next hn =>
  split at h
  · simp at h
  next hc =>
  simp only [Except.ok.injEq, Prod.mk.injEq] at h
  have := length_lt_of_expect hk
  have := length_lt_of_expect hs
  have := length_lt_of_expect ht
  have := length_lt_of_expect ho
  have := length_lt_of_expect (h.2 ▸ hc)
  have hl := length_names_le rest₄
  simp only [hn] at hl
  omega

def Statement.isModule : Statement → Bool
  | .module _ => true
  | _ => false

/-- A statement, without the semicolons after it. -/
def statement (eof : Token) (seen : Bool) (ts : List Token) : Parse Statement :=
  let next := ts.headD eof
  match next.kind with
  | .allow | .deny =>
    match rule eof ts with
    | .ok (r, rest) => .ok (.rule r, rest)
    | .error e => .error e
  | .module =>
    match moduleBlock eof seen ts with
    | .ok (b, rest) => .ok (.module b, rest)
    | .error e => .error e
  | .require =>
    match requireBlock eof ts with
    | .ok (b, rest) => .ok (.require b, rest)
    | .error e => .error e
  | _ => .error ⟨.unexpected next, next.span⟩

theorem length_lt_of_statement {eof : Token} {seen : Bool} {ts rest : List Token} {s : Statement}
    (h : statement eof seen ts = .ok (s, rest)) : rest.length < ts.length := by
  simp only [statement] at h
  split at h
  · split at h
    · next hr =>
      simp only [Except.ok.injEq, Prod.mk.injEq] at h
      exact length_lt_of_rule (h.2 ▸ hr)
    · simp at h
  · split at h
    · next hr =>
      simp only [Except.ok.injEq, Prod.mk.injEq] at h
      exact length_lt_of_rule (h.2 ▸ hr)
    · simp at h
  · split at h
    · next hb =>
      simp only [Except.ok.injEq, Prod.mk.injEq] at h
      exact length_lt_of_moduleBlock (h.2 ▸ hb)
    · simp at h
  · split at h
    · next hb =>
      simp only [Except.ok.injEq, Prod.mk.injEq] at h
      exact length_lt_of_requireBlock (h.2 ▸ hb)
    · simp at h
  · simp at h

/-- All statements; `seen` says that a module block came before them. -/
def statements (eof : Token) (seen : Bool) (ts : List Token) :
    Except SyntaxError (List Statement) :=
  match ts with
  | [] => .ok []
  | t :: ts =>
    match _h : statement eof seen (t :: ts) with
    | .error e => .error e
    | .ok (s, rest) =>
      match statements eof (seen || s.isModule) (skipSemicolons rest) with
      | .ok others => .ok (s :: others)
      | .error e => .error e
termination_by ts.length
decreasing_by exact Nat.lt_of_le_of_lt (length_skipSemicolons_le rest) (length_lt_of_statement _h)

/-- The span from the first statement to the last; the start of the file if there is none. -/
def statementsSpan (ss : List Statement) : Span :=
  match ss.head?, ss.getLast? with
  | some first, some last => first.span.to last.span
  | _, _ => .point .origin

/-- The tokens of a text are read by this grammar, with one token of lookahead.

    policy      = statement*
    statement   = (module | require | rule) ";"*
    module      = "module" "{" (identifier sum ";"*)* "}"
    require     = "require" "{" ("type" identifier ";"*)* "}"
    rule        = ("allow" | "deny") identifier (identifier | "*") permissions
    permissions = "{" (identifier ("," identifier)* ","?)? "}"
    sum         = product (("+" | "-") product)*
    product     = unary (("*" | "/" | "%") unary)*
    unary       = "-" unary | literal
    literal     = string | integer | "true" | "false" -/
def Lexed.parse (l : Lexed) : Except SyntaxError Policy :=
  match statements (.endOfFile l.stop) false l.tokens with
  | .ok ss => .ok ⟨ss, statementsSpan ss⟩
  | .error e => .error e

def parse (source : String) : Except SyntaxError Policy :=
  match lex source with
  | .ok l => l.parse
  | .error e => .error e

end GuildPolicy.Syntax
