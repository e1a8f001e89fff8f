import GuildPolicy.Proofs.Source.Position
import GuildPolicy.Proofs.Syntax.Expressions
import GuildPolicy.Proofs.Syntax.Tokens

namespace GuildPolicy.Syntax

open GuildPolicy.Source GuildPolicy.Text

variable {text cs before taken piece rest value : List Char} {c e quote : Char} {p : Position}
variable {fault : SyntaxFault}

/-- What is given has a property, or the fault that is reported lies in the text. -/
structure Reports {α : Type} (text : List Char) (Q : α → Prop) (r : Except SyntaxError α) :
    Prop where
  ok : ∀ {a}, r = .ok a → Q a
  error : ∀ {e}, r = .error e → e.span.IsIn text

theorem Reports.of_ok {α : Type} {Q : α → Prop} {a : α} (ha : Q a) : Reports text Q (.ok a) := by
  constructor
  · rintro _ ⟨⟩
    exact ha
  · rintro _ ⟨⟩

theorem Reports.of_error {α : Type} {Q : α → Prop} {e : SyntaxError} (he : e.span.IsIn text) :
    Reports text Q (.error e) := by
  constructor
  · rintro _ ⟨⟩
  · rintro _ ⟨⟩
    exact he

theorem Quoted.cons_eq_badEscape_iff {q : Quoted} {spelling : List Char} :
    q.cons c spelling = .badEscape before e rest ↔
      ∃ before', q = .badEscape before' e rest ∧ before = spelling ++ before' := by
  cases q with
  | badEscape before' e' rest' =>
    simp only [Quoted.cons, Quoted.badEscape.injEq]
    constructor
    · rintro ⟨rfl, rfl, rfl⟩
      exact ⟨_, ⟨rfl, rfl, rfl⟩, rfl⟩
    · rintro ⟨_, ⟨rfl, rfl, rfl⟩, rfl⟩
      exact ⟨rfl, rfl, rfl⟩
  | closed | unclosed =>
    constructor
    · rintro ⟨⟩
    · rintro ⟨_, ⟨⟩, _⟩

theorem eq_append_of_badEscape (h : readQuoted quote cs = .badEscape before e rest) :
    cs = before ++ '\\' :: e :: rest := by
  fun_induction readQuoted quote cs generalizing before with
  | case1 => cases h
  | case2 => cases h
  | case3 => cases h
  | case4 e' rest' _ value _ ih =>
    obtain ⟨before', hrest, rfl⟩ := Quoted.cons_eq_badEscape_iff.1 h
    rw [ih hrest]
    rfl
  | case5 =>
    cases h
    rfl
  | case6 c cs _ _ ih =>
    obtain ⟨before', hrest, rfl⟩ := Quoted.cons_eq_badEscape_iff.1 h
    rw [ih hrest]
    rfl

theorem eq_append_of_fault (h : lexeme c cs = .fault fault before piece rest) :
    c :: cs = before ++ (piece ++ rest) := by
  rw [lexeme] at h
  split at h
  · cases h
  split at h
  · split at h
    · cases h
    · cases h
      exact (List.append_nil _).symm
    · next hquoted =>
      cases h
      rw [eq_append_of_badEscape hquoted]
      rfl
  split at h
  · cases h
  split at h
  · cases h
  · cases h
    rfl

theorem precedes_of_dropWhile (hp : p.Precedes text cs) (hdrop : cs.dropWhile isBlank = c :: rest) :
    (p.walk (cs.takeWhile isBlank) (c :: rest)).Precedes text (c :: rest) := by
  rw [← List.takeWhile_append_dropWhile (p := isBlank) (l := cs), hdrop] at hp
  exact hp.walk

theorem lexFrom_isIn (hp : p.Precedes text cs) :
    Reports text (fun l => ∀ t ∈ l.toList, t.span.IsIn text) (lexFrom p cs) := by
  fun_induction lexFrom p cs with
  | case1 p cs hdrop =>
    refine .of_ok fun t ht => ?_
    obtain rfl := List.mem_singleton.1 ht
    rw [← List.append_nil cs] at hp
    exact Span.isIn_point hp.walk.isIn
  | case2 p cs c rest hdrop start kind value taken rest' hl stop l hlex ih =>
    have hstart : start.Precedes text (taken ++ rest') :=
      (isLexeme_of_lexeme hl).2 ▸ precedes_of_dropWhile hp hdrop
    exact .of_ok (List.forall_mem_cons.2 ⟨hstart.span, (ih hstart.walk).ok hlex⟩)
  | case3 p cs c rest hdrop start kind value taken rest' hl stop e hlex ih =>
    have hstart : start.Precedes text (taken ++ rest') :=
      (isLexeme_of_lexeme hl).2 ▸ precedes_of_dropWhile hp hdrop
    exact .of_error ((ih hstart.walk).error hlex)
  | case4 p cs c rest hdrop start fault before piece rest' hl start' =>
    have hstart : start.Precedes text (before ++ (piece ++ rest')) :=
      eq_append_of_fault hl ▸ precedes_of_dropWhile hp hdrop
    exact .of_error hstart.walk.span

def Property.spans (p : Property) : List Span := [p.span, p.value.span]

def Statement.spans : Statement → List Span
  | .module block => block.span :: block.properties.flatMap Property.spans
  | .require block => block.span :: block.types.map Name.span
  | .rule r => r.span :: r.subject.span :: r.targetSpan :: r.permissions.map Name.span

def Statement.IsIn (text : List Char) (s : Statement) : Prop := ∀ span ∈ s.spans, span.IsIn text

/-- The spans of all nodes. -/
def Policy.spans (p : Policy) : List Span := p.span :: p.statements.flatMap Statement.spans

/-- What a parser gives has a property, and the tokens that it leaves and the fault that it reports
lie in the text. -/
def Yields {α : Type} (text : List Char) (Q : α → Prop) (r : Parse α) : Prop :=
  Reports text (fun given => Q given.1 ∧ ∀ t ∈ given.2, t.span.IsIn text) r

section Parsers

variable {α : Type} {Q : α → Prop} {a : α} {eof t : Token} {ts left : List Token}
variable {fails : SyntaxError} {op : Operator} {l r : Literal} {s : Span} {kinds : List TokenKind}

theorem Yields.of_ok (ha : Q a) (hleft : ∀ t ∈ left, t.span.IsIn text) :
    Yields text Q (.ok (a, left)) :=
  Reports.of_ok ⟨ha, hleft⟩

theorem Yields.of_error (h : fails.span.IsIn text) : Yields text Q (.error fails) :=
  Reports.of_error h

theorem operand_isIn (hl : l.span.IsIn text) (h : operand op l = .error fails) :
    fails.span.IsIn text := by
  rw [operand] at h
  split at h
  · cases h
    exact hl
  · split at h
    · cases h
    · cases h
      exact hl

theorem apply_isIn {a b : Int} (hr : r.span.IsIn text) (hs : s.IsIn text)
    (h : op.apply s r a b = .error fails) : fails.span.IsIn text := by
  have hrange {n : Int} {e : SyntaxError}
      (h : (if InRange n then Except.ok n else .error (⟨.overflow op, s⟩ : SyntaxError)) =
        .error e) : e.span.IsIn text := by
    split at h
    · cases h
    · cases h
      exact hs
  cases op with
  | add | subtract | multiply => exact hrange h
  | divide =>
    simp only [Operator.apply] at h
    split at h
    · cases h
      exact hr
    · exact hrange h
  | modulo =>
    simp only [Operator.apply] at h
    split at h
    · cases h
      exact hr
    · split at h
      · cases h
      · next hq =>
        cases h
        exact hrange hq

theorem combine_isIn (hl : l.span.IsIn text) (hr : r.span.IsIn text) (hs : s.IsIn text)
    (h : op.combine l r s = .error fails) : fails.span.IsIn text := by
  rw [Operator.combine] at h
  cases ha : operand op l with
  | error e =>
    rw [ha] at h
    cases h
    exact operand_isIn hl ha
  | ok a =>
    cases hb : operand op r with
    | error e =>
      rw [ha, hb] at h
      cases h
      exact operand_isIn hr hb
    | ok b =>
      cases hn : op.apply s r a b with
      | error e =>
        rw [ha, hb] at h
        change (op.apply s r a b >>= _) = _ at h
        rw [hn] at h
        cases h
        exact apply_isIn hr hs hn
      | ok n =>
        rw [ha, hb] at h
        change (op.apply s r a b >>= _) = _ at h
        rw [hn] at h
        cases h

theorem negate_isIn (ht : t.span.IsIn text) (hl : l.span.IsIn text) :
    Reports text (fun v => v.span.IsIn text) (negate t l) := by
  have hzero : (Span.point t.span.start).IsIn text := Span.isIn_point ht.start
  rw [negate]
  dsimp only
  split
  · next n hn =>
    refine .of_ok ?_
    rw [combine_span hn]
    exact ht.to (hzero.to hl)
  · next e he => exact .of_error (combine_isIn hzero hl (hzero.to hl) he)

theorem isIn_skipSemicolons (hts : ∀ t ∈ ts, t.span.IsIn text) :
    ∀ t ∈ skipSemicolons ts, t.span.IsIn text :=
  fun t ht => hts t ((List.dropWhile_sublist _).subset ht)

theorem isIn_names (hts : ∀ t ∈ ts, t.span.IsIn text) :
    (∀ n ∈ (names ts).1, n.span.IsIn text) ∧ ∀ t ∈ (names ts).2, t.span.IsIn text := by
  fun_induction names ts with
  | case1 => exact ⟨List.forall_mem_nil _, List.forall_mem_nil _⟩
  | case2 t _ =>
    have ht : t.span.IsIn text := hts t (List.mem_singleton_self t)
    exact ⟨List.forall_mem_singleton.2 ht, List.forall_mem_nil _⟩
  | case3 t _ c rest _ others rest' h ih =>
    obtain ⟨ht, hts⟩ := List.forall_mem_cons.1 hts
    obtain ⟨hothers, hrest⟩ := ih (List.forall_mem_cons.1 hts).2
    rw [h] at hothers hrest
    exact ⟨List.forall_mem_cons.2 ⟨ht, hothers⟩, hrest⟩
  | case4 t _ c rest _ =>
    obtain ⟨ht, hts⟩ := List.forall_mem_cons.1 hts
    exact ⟨List.forall_mem_singleton.2 ht, hts⟩
  | case5 => exact ⟨List.forall_mem_nil _, hts⟩

variable (heof : eof.span.IsIn text)
include heof

theorem yields_expect (hts : ∀ t ∈ ts, t.span.IsIn text) :
    Yields text (·.span.IsIn text) (expect eof kinds ts) := by
  cases ts with
  | nil => exact .of_error heof
  | cons t ts =>
    obtain ⟨ht, hts⟩ := List.forall_mem_cons.1 hts
    rw [expect]
    split
    · exact .of_ok ht hts
    · exact .of_error ht

theorem yields_literal (hts : ∀ t ∈ ts, t.span.IsIn text) :
    Yields text (·.span.IsIn text) (literal eof ts) := by
  rw [literal]
  split
  · next h =>
    obtain ⟨ht, hrest⟩ := (yields_expect heof hts).ok h
    exact .of_ok ht hrest
  · next h => exact .of_error ((yields_expect heof hts).error h)

theorem yields_unary (hts : ∀ t ∈ ts, t.span.IsIn text) :
    Yields text (·.span.IsIn text) (unary eof ts) := by
  induction ts with
  | nil => exact yields_literal heof hts
  | cons t ts ih =>
    obtain ⟨ht, hrest⟩ := List.forall_mem_cons.1 hts
    rw [unary]
    split
    · split
      · next h =>
        obtain ⟨hvalue, hrest⟩ := (ih hrest).ok h
        split
        · next hn => exact .of_ok ((negate_isIn ht hvalue).ok hn) hrest
        · next he => exact .of_error ((negate_isIn ht hvalue).error he)
      · next h => exact .of_error ((ih hrest).error h)
    · exact yields_literal heof hts

omit heof in
theorem yields_operations {operator? : TokenKind → Option Operator}
    {operand : List Token → Parse Literal}
    {shorter : ∀ {ts l rest}, operand ts = .ok (l, rest) → rest.length < ts.length}
    (hoperand : ∀ {ts}, (∀ t ∈ ts, t.span.IsIn text) → Yields text (·.span.IsIn text) (operand ts))
    (hl : l.span.IsIn text) (hts : ∀ t ∈ ts, t.span.IsIn text) :
    Yields text (·.span.IsIn text) (operations operator? operand shorter l ts) := by
  fun_induction operations operator? operand shorter l ts with
  | case1 => exact .of_ok hl hts
  | case2 => exact .of_ok hl hts
  | case3 l t rest op _ e he =>
    exact .of_error ((hoperand (List.forall_mem_cons.1 hts).2).error he)
  | case4 l t rest op _ r rest' hr e he =>
    obtain ⟨hr, _⟩ := (hoperand (List.forall_mem_cons.1 hts).2).ok hr
    exact .of_error (combine_isIn hl hr (hl.to hr) he)
  | case5 l t rest op _ r rest' hr v hv ih =>
    obtain ⟨hr, hrest⟩ := (hoperand (List.forall_mem_cons.1 hts).2).ok hr
    exact ih (combine_span hv ▸ hl.to hr) hrest

omit heof in
theorem yields_chain {operator? : TokenKind → Option Operator}
    {operand : List Token → Parse Literal}
    {shorter : ∀ {ts l rest}, operand ts = .ok (l, rest) → rest.length < ts.length}
    (hoperand : ∀ {ts}, (∀ t ∈ ts, t.span.IsIn text) → Yields text (·.span.IsIn text) (operand ts))
    (hts : ∀ t ∈ ts, t.span.IsIn text) :
    Yields text (·.span.IsIn text) (chain operator? operand shorter ts) := by
  rw [chain]
  split
  · next h =>
    obtain ⟨hl, hrest⟩ := (hoperand hts).ok h
    exact yields_operations hoperand hl hrest
  · next h => exact .of_error ((hoperand hts).error h)

theorem yields_sum (hts : ∀ t ∈ ts, t.span.IsIn text) :
    Yields text (·.span.IsIn text) (sum eof ts) :=
  yields_chain (yields_chain (yields_unary heof)) hts

theorem yields_items {item : List Token → Parse α}
    {shorter : ∀ {ts a rest}, item ts = .ok (a, rest) → rest.length < ts.length}
    (hitem : ∀ {ts}, (∀ t ∈ ts, t.span.IsIn text) → Yields text Q (item ts))
    (hts : ∀ t ∈ ts, t.span.IsIn text) :
    Yields text (fun r => (∀ a ∈ r.1, Q a) ∧ r.2.span.IsIn text) (items eof item shorter ts) := by
  fun_induction items eof item shorter ts with
  | case1 ts _ brace rest h =>
    obtain ⟨hbrace, hrest⟩ := (yields_expect heof hts).ok h
    exact .of_ok ⟨List.forall_mem_nil _, hbrace⟩ hrest
  | case2 ts _ e h => exact .of_error ((yields_expect heof hts).error h)
  | case3 ts _ e h => exact .of_error ((hitem hts).error h)
  | case4 ts _ a rest h as brace rest' hrest' ih =>
    obtain ⟨ha, hrest⟩ := (hitem hts).ok h
    obtain ⟨⟨has, hbrace⟩, hrest'⟩ := (ih (isIn_skipSemicolons hrest)).ok hrest'
    exact .of_ok ⟨List.forall_mem_cons.2 ⟨ha, has⟩, hbrace⟩ hrest'
  | case5 ts _ a rest h e he ih =>
    obtain ⟨_, hrest⟩ := (hitem hts).ok h
    exact .of_error ((ih (isIn_skipSemicolons hrest)).error he)

theorem yields_block {item : List Token → Parse α}
    {shorter : ∀ {ts a rest}, item ts = .ok (a, rest) → rest.length < ts.length}
    (hitem : ∀ {ts}, (∀ t ∈ ts, t.span.IsIn text) → Yields text Q (item ts))
    (hts : ∀ t ∈ ts, t.span.IsIn text) :
    Yields text (fun r => (∀ a ∈ r.1, Q a) ∧ r.2.span.IsIn text) (block eof item shorter ts) := by
  rw [block]
  split
  · next h =>
    obtain ⟨_, hrest⟩ := (yields_expect heof hts).ok h
    exact yields_items heof hitem hrest
  · next h => exact .of_error ((yields_expect heof hts).error h)

theorem yields_property (hts : ∀ t ∈ ts, t.span.IsIn text) :
    Yields text (fun p => ∀ s ∈ p.spans, s.IsIn text) (property eof ts) := by
  rw [property]
  split
  · next h => exact .of_error ((yields_expect heof hts).error h)
  next name rest h =>
  obtain ⟨hname, hrest⟩ := (yields_expect heof hts).ok h
  split
  · split
    · next h =>
      obtain ⟨hvalue, hrest⟩ := (yields_sum heof hrest).ok h
      refine .of_ok (List.forall_mem_cons.2 ⟨hname.to hvalue, ?_⟩) hrest
      exact List.forall_mem_singleton.2 hvalue
    · next h => exact .of_error ((yields_sum heof hrest).error h)
  · exact .of_error hname

theorem yields_requiredType (hts : ∀ t ∈ ts, t.span.IsIn text) :
    Yields text (·.span.IsIn text) (requiredType eof ts) := by
  rw [requiredType]
  split
  · next h => exact .of_error ((yields_expect heof hts).error h)
  next keyword rest h =>
  obtain ⟨hkeyword, hrest⟩ := (yields_expect heof hts).ok h
  split
  · next h =>
    obtain ⟨hname, hrest⟩ := (yields_expect heof hrest).ok h
    exact .of_ok (hkeyword.to hname) hrest
  · next h => exact .of_error ((yields_expect heof hrest).error h)

theorem yields_moduleBlock {seen : Bool} (hts : ∀ t ∈ ts, t.span.IsIn text) :
    Yields text (fun b => (Statement.module b).IsIn text) (moduleBlock eof seen ts) := by
  rw [moduleBlock]
  split
  · next h => exact .of_error ((yields_expect heof hts).error h)
  next keyword rest h =>
  obtain ⟨hkeyword, hrest⟩ := (yields_expect heof hts).ok h
  split
  · exact .of_error hkeyword
  split
  · next h =>
    obtain ⟨⟨hproperties, hbrace⟩, hrest⟩ :=
      (yields_block heof (yields_property heof) hrest).ok h
    refine .of_ok (List.forall_mem_cons.2 ⟨hkeyword.to hbrace, fun s hs => ?_⟩) hrest
    obtain ⟨p, hp, hs⟩ := List.mem_flatMap.1 hs
    exact hproperties p hp s hs
  · next h => exact .of_error ((yields_block heof (yields_property heof) hrest).error h)

theorem yields_requireBlock (hts : ∀ t ∈ ts, t.span.IsIn text) :
    Yields text (fun b => (Statement.require b).IsIn text) (requireBlock eof ts) := by
  rw [requireBlock]
  split
  · next h => exact .of_error ((yields_expect heof hts).error h)
  next keyword rest h =>
  obtain ⟨hkeyword, hrest⟩ := (yields_expect heof hts).ok h
  split
  · next h =>
    obtain ⟨⟨htypes, hbrace⟩, hrest⟩ :=
      (yields_block heof (yields_requiredType heof) hrest).ok h
    refine .of_ok (List.forall_mem_cons.2 ⟨hkeyword.to hbrace, ?_⟩) hrest
    exact List.forall_mem_map.2 htypes
  · next h => exact .of_error ((yields_block heof (yields_requiredType heof) hrest).error h)

theorem yields_rule (hts : ∀ t ∈ ts, t.span.IsIn text) :
    Yields text (fun r => (Statement.rule r).IsIn text) (rule eof ts) := by
  rw [rule]
  split
  · next h => exact .of_error ((yields_expect heof hts).error h)
  next keyword rest h =>
  obtain ⟨hkeyword, hrest⟩ := (yields_expect heof hts).ok h
  split
  · next h => exact .of_error ((yields_expect heof hrest).error h)
  next subject rest h =>
  obtain ⟨hsubject, hrest⟩ := (yields_expect heof hrest).ok h
  split
  · next h => exact .of_error ((yields_expect heof hrest).error h)
  next target rest h =>
  obtain ⟨htarget, hrest⟩ := (yields_expect heof hrest).ok h
  split
  · next h => exact .of_error ((yields_expect heof hrest).error h)
  next rest h =>
  obtain ⟨_, hrest⟩ := (yields_expect heof hrest).ok h
  split
  next permissions rest hnames =>
  obtain ⟨hpermissions, hrest⟩ := isIn_names hrest
  rw [hnames] at hpermissions hrest
  split
  · next h => exact .of_error ((yields_expect heof hrest).error h)
  next brace rest h =>
  obtain ⟨hbrace, hrest⟩ := (yields_expect heof hrest).ok h
  refine .of_ok (List.forall_mem_cons.2 ⟨hkeyword.to hbrace, ?_⟩) hrest
  refine List.forall_mem_cons.2 ⟨hsubject, List.forall_mem_cons.2 ⟨htarget, ?_⟩⟩
  exact List.forall_mem_map.2 hpermissions

theorem yields_statement {seen : Bool} (hts : ∀ t ∈ ts, t.span.IsIn text) :
    Yields text (·.IsIn text) (statement eof seen ts) := by
  rw [statement]
  split
  · split
    · next h =>
      obtain ⟨hr, hrest⟩ := (yields_rule heof hts).ok h
      exact .of_ok hr hrest
    · next h => exact .of_error ((yields_rule heof hts).error h)
  · split
    · next h =>
      obtain ⟨hr, hrest⟩ := (yields_rule heof hts).ok h
      exact .of_ok hr hrest
    · next h => exact .of_error ((yields_rule heof hts).error h)
  · split
    · next h =>
      obtain ⟨hb, hrest⟩ := (yields_moduleBlock heof hts).ok h
      exact .of_ok hb hrest
    · next h => exact .of_error ((yields_moduleBlock heof hts).error h)
  · split
    · next h =>
      obtain ⟨hb, hrest⟩ := (yields_requireBlock heof hts).ok h
      exact .of_ok hb hrest
    · next h => exact .of_error ((yields_requireBlock heof hts).error h)
  · refine .of_error ?_
    cases ts with
    | nil => exact heof
    | cons t ts => exact hts t (List.mem_cons_self ..)

theorem statements_isIn {seen : Bool} (hts : ∀ t ∈ ts, t.span.IsIn text) :
    Reports text (fun ss => ∀ s ∈ ss, s.IsIn text) (statements eof seen ts) := by
  fun_induction statements eof seen ts with
  | case1 => exact .of_ok (List.forall_mem_nil _)
  | case2 seen t ts e h => exact .of_error ((yields_statement heof hts).error h)
  | case3 seen t ts s rest h others hothers ih =>
    obtain ⟨hs, hrest⟩ := (yields_statement heof hts).ok h
    have hss := (ih (isIn_skipSemicolons hrest)).ok hothers
    exact .of_ok (List.forall_mem_cons.2 ⟨hs, hss⟩)
  | case4 seen t ts s rest h e he ih =>
    obtain ⟨_, hrest⟩ := (yields_statement heof hts).ok h
    exact .of_error ((ih (isIn_skipSemicolons hrest)).error he)

end Parsers

theorem Statement.span_mem_spans (s : Statement) : s.span ∈ s.spans := by
  cases s with
  | module | require | rule => exact List.mem_cons_self ..

theorem statementsSpan_isIn {ss : List Statement} (h : ∀ s ∈ ss, s.span.IsIn text) :
    (statementsSpan ss).IsIn text := by
  rw [statementsSpan]
  split
  · next hfirst hlast =>
    exact (h _ (List.mem_of_head? hfirst)).to (h _ (List.mem_of_getLast? hlast))
  · exact Span.isIn_origin text

theorem parse_isIn (source : String) :
    Reports source.toList (fun p => ∀ s ∈ p.spans, s.IsIn source.toList) (parse source) := by
  have hlex := lexFrom_isIn (Position.precedes_origin source.toList)
  rw [parse]
  split
  · next l hl =>
    obtain ⟨htokens, hend⟩ := List.forall_mem_append.1 (hlex.ok hl)
    have heof := List.forall_mem_singleton.1 hend
    rw [Lexed.parse]
    split
    · next ss hss =>
      have hspans := (statements_isIn heof htokens).ok hss
      refine .of_ok (List.forall_mem_cons.2 ⟨?_, fun span hspan => ?_⟩)
      · exact statementsSpan_isIn fun s hs => hspans s hs _ s.span_mem_spans
      · obtain ⟨s, hs, hspan⟩ := List.mem_flatMap.1 hspan
        exact hspans s hs span hspan
    · next e he => exact .of_error ((statements_isIn heof htokens).error he)
  · next e he => exact .of_error (hlex.error he)

end GuildPolicy.Syntax
