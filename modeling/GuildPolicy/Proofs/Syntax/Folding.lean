import GuildPolicy.Proofs.Syntax.Expressions
import GuildPolicy.Proofs.Syntax.Tokens

namespace GuildPolicy.Syntax

open GuildPolicy.Source

variable {t : Token} {ts us rest : List Token} {e : Expression} {l : Literal} {s s' : Span}
variable {p : Nat}

/-- No token is empty, and each ends before the next begins. -/
structure InOrder (ts : List Token) : Prop where
  inner : ∀ t ∈ ts, t.span.start.offset < t.span.stop.offset
  ordered : ts.Pairwise fun t u => t.span.stop.offset ≤ u.span.start.offset

namespace InOrder

theorem sublist (h : InOrder us) (hts : ts.Sublist us) : InOrder ts where
  inner t ht := h.inner t (hts.subset ht)
  ordered := h.ordered.sublist hts

theorem left (h : InOrder (ts ++ us)) : InOrder ts := h.sublist (List.sublist_append_left ts us)

theorem right (h : InOrder (ts ++ us)) : InOrder us := h.sublist (List.sublist_append_right ts us)

theorem tail (h : InOrder (t :: ts)) : InOrder ts := h.sublist (List.sublist_cons_self t ts)

end InOrder

theorem inOrder_of_lex {source : String} {l : Lexed} (h : lex source = .ok l) :
    InOrder l.tokens := by
  obtain ⟨ps, blanks, hcut⟩ := exists_isCut_of_lexFrom h
  obtain rfl : lay blanks .origin ps = l :=
    Except.ok.inj ((lexFrom_of_isCut hcut .origin).symm.trans h)
  have hshows : (lay blanks .origin ps).Shows .origin ([] ++ spelled blanks ps) ps blanks :=
    shows_lay hcut.isLexeme [] rfl
  exact ⟨fun t ht => (hshows.inner t ht).2,
    hshows.ordered.sublist (List.sublist_append_left _ _)⟩

theorem Span.start_offset_to (s s' : Span) :
    (s.to s').start.offset = min s.start.offset s'.start.offset := by
  have hstart : (s.to s').start.offset =
      if s'.start.offset < s.start.offset then s'.start.offset else s.start.offset :=
    apply_ite Position.offset ..
  rw [hstart]
  split <;> omega

theorem Span.stop_offset_to (s s' : Span) :
    (s.to s').stop.offset = max s.stop.offset s'.stop.offset := by
  have hstop : (s.to s').stop.offset =
      if s.stop.offset < s'.stop.offset then s'.stop.offset else s.stop.offset :=
    apply_ite Position.offset ..
  rw [hstop]
  split <;> omega

/-- Up to a span that ends later, it is as far from the start of a span as from the whole of it. -/
theorem Span.to_point_to (hs : s.start.offset < s.stop.offset)
    (hs' : s.stop.offset < s'.stop.offset) :
    s.to ((Span.point s.start).to s') = (Span.point s.start).to s' := by
  by_cases hlt : s'.start.offset < s.start.offset
  · have hto : (Span.point s.start).to s' = ⟨s'.start, s'.stop⟩ :=
      congrArg₂ Span.mk (if_pos hlt) (if_pos (hs.trans hs'))
    rw [hto]
    exact congrArg₂ Span.mk (if_pos hlt) (if_pos hs')
  · have hto : (Span.point s.start).to s' = ⟨s.start, s'.stop⟩ :=
      congrArg₂ Span.mk (if_neg hlt) (if_pos (hs.trans hs'))
    rw [hto]
    exact congrArg₂ Span.mk (if_neg (Nat.lt_irrefl _)) (if_pos hs')

theorem IsUnary.lies_after (h : IsUnary us e) (hus : InOrder us)
    (hp : ∀ t ∈ us, p ≤ t.span.start.offset) :
    p ≤ e.span.start.offset ∧ p < e.span.stop.offset := by
  induction h with
  | @literal t ht =>
    have hstart := hp t (List.mem_singleton_self t)
    exact ⟨hstart, hstart.trans_lt (hus.inner t (List.mem_singleton_self t))⟩
  | @minus t ts e ht h ih =>
    obtain ⟨hpt, hpts⟩ := List.forall_mem_cons.1 hp
    obtain ⟨hstart, hstop⟩ := ih hus.tail hpts
    have hmin : (Expression.negation t e).span.start.offset = _ := Span.start_offset_to ..
    have hmax : (Expression.negation t e).span.stop.offset = _ := Span.stop_offset_to ..
    rw [Span.start_offset_to] at hmin
    rw [Span.stop_offset_to] at hmax
    dsimp only [Span.point] at hmin hmax
    omega

/-- The place at which a minus sign is carried out is that of the whole negation, since in a text
the operand stands after the sign. -/
theorem IsUnary.negation_span (h : IsUnary us e) (hus : InOrder (t :: us)) :
    (Expression.negation t e).span = (Span.point t.span.start).to e.span := by
  obtain ⟨-, hstop⟩ := h.lies_after hus.tail fun _ => List.rel_of_pairwise_cons hus.ordered
  exact Span.to_point_to (hus.inner t List.mem_cons_self) hstop

/-- A parser takes a phrase off the front of tokens and answers what the whole of its expression
folds to, with its fault if it has one. -/
def Carries (read : List Token → Parse Literal) (IsPhrase : List Token → Expression → Prop)
    (Follows : TokenKind → Prop) : Prop :=
  ∀ us e rest, IsPhrase us e → InOrder us → (∀ t ∈ rest.head?, Follows t.kind) →
    read (us ++ rest) = (fun l => (l, rest)) <$> e.fold

theorem negate_eq (hspan : (Expression.negation t e).span = (Span.point t.span.start).to e.span)
    (hl : e.fold = .ok l) : negate t l = (Expression.negation t e).fold := by
  have hfold : (Expression.negation t e).fold =
      Operator.subtract.combine ⟨.integer, "0", .point t.span.start⟩ l
        (Expression.negation t e).span := by
    rw [Expression.negation, Expression.fold, hl]
    rfl
  rw [hfold, hspan, negate]
  dsimp only
  rw [fold_span hl]
  cases hn : Operator.subtract.combine ⟨.integer, "0", .point t.span.start⟩ l
    ((Span.point t.span.start).to e.span) with
  | error fault => rfl
  | ok n =>
    have hplace : t.span.to n.span = n.span := by
      rw [combine_span hn]
      exact hspan
    dsimp only
    rw [hplace]

theorem unary_carries (eof : Token) : Carries (unary eof) IsUnary fun _ => True := by
  intro us e rest h hus _
  induction h with
  | @literal t ht =>
    rw [List.singleton_append, unary, if_neg (unary_of_literal ht), literal, expect_of_mem ht]
    rfl
  | @minus t ts e ht h ih =>
    rw [List.cons_append, unary, if_pos ht, ih hus.tail]
    cases hl : e.fold with
    | error fault =>
      rw [Expression.negation, Expression.fold, hl]
      rfl
    | ok l =>
      rw [← negate_eq (h.negation_span hus) hl]
      dsimp only [Functor.map, Except.map]
      cases negate t l with
      | error fault => rfl
      | ok n => rfl

section Chain

variable {operator? : TokenKind → Option Operator} {operand : List Token → Parse Literal}
variable {shorter : ∀ {ts l rest}, operand ts = .ok (l, rest) → rest.length < ts.length}
variable {IsOperand : List Token → Expression → Prop} {Follows : TokenKind → Prop}

/-- The chain up to some operator has been carried out when the parser comes to that operator. -/
theorem chain_append_eq_bind (hoperand : Carries operand IsOperand Follows)
    (hfollows : ∀ {k op}, operator? k = some op → Follows k)
    (h : IsChain operator? IsOperand us e) (hus : InOrder us)
    (hrest : ∀ t ∈ rest.head?, Follows t.kind) :
    chain operator? operand shorter (us ++ rest) =
      bind (m := Except SyntaxError) e.fold fun l =>
        operations operator? operand shorter l rest := by
  induction h generalizing rest with
  | @operand us e h =>
    rw [chain_eq_bind, hoperand _ _ _ h hus hrest]
    cases e.fold with
    | error fault => rfl
    | ok l => rfl
  | @operation ts us t op left right hl ht hr ih =>
    have hfirst : ∀ t' ∈ (t :: (us ++ rest)).head?, Follows t'.kind := by
      rintro _ ⟨⟩
      exact hfollows ht
    rw [List.append_assoc, List.cons_append, ih hus.left hfirst, Expression.operation,
      Expression.fold]
    cases hleft : left.fold with
    | error fault => rfl
    | ok l =>
      dsimp only [bind, Except.bind]
      rw [operations_of_some ht, hoperand _ _ _ hr hus.right.tail hrest]
      cases hright : right.fold with
      | error fault => rfl
      | ok r =>
        dsimp only [bind, Except.bind, Functor.map, Except.map]
        rw [fold_span hleft, fold_span hright]

theorem chain_carries (hoperand : Carries operand IsOperand Follows)
    (hfollows : ∀ {k op}, operator? k = some op → Follows k) :
    Carries (chain operator? operand shorter) (IsChain operator? IsOperand)
      fun k => Follows k ∧ operator? k = none := by
  intro us e rest h hus hrest
  rw [chain_append_eq_bind hoperand hfollows h hus fun t ht => (hrest t ht).1]
  cases e.fold with
  | error fault => rfl
  | ok l => exact operations_eq_self fun t ht => (hrest t ht).2

end Chain

theorem product_carries (eof : Token) : Carries (product eof) IsProduct
    fun k => Operator.ofFactor? k = none := by
  intro us e rest h hus hrest
  exact chain_carries (unary_carries eof) (fun _ => trivial) us e rest h hus
    fun t ht => ⟨trivial, hrest t ht⟩

/-- Carrying out an expression while it is read comes to what folding its whole tree comes to, the
constant and its place or the fault and its place. The tokens are any that stand in the order of a
text, as those of every text do; for tokens that stand anywhere, the constants still agree. -/
theorem sum_eq_fold (eof : Token) :
    (∀ source l, lex source = .ok l → InOrder l.tokens) ∧
    ∀ us e rest, IsSum us e →
      (∀ t ∈ rest.head?, Operator.ofFactor? t.kind = none ∧ Operator.ofSummand? t.kind = none) →
      (InOrder us → sum eof (us ++ rest) = (fun l => (l, rest)) <$> e.fold) ∧
      ∀ l rest', sum eof (us ++ rest) = .ok (l, rest') ↔ e.fold = .ok l ∧ rest' = rest := by
  refine ⟨fun _ _ => inOrder_of_lex, fun us e rest h hrest => ⟨fun hus => ?_, fun l rest' => ?_⟩⟩
  · exact chain_carries (product_carries eof) ofFactor?_of_ofSummand? us e rest h hus hrest
  · exact (reads_sum eof).complete h hrest

def onFirstLine (first last : Nat) : Span := ⟨⟨first, 1, first + 1⟩, ⟨last, 1, last + 1⟩⟩

/-- The tokens of `-8%3`, which are a product, and those of `/0+'a'` after them. -/
def remainderTokens : List Token :=
  [⟨.minus, "-", onFirstLine 0 1⟩, ⟨.integer, "8", onFirstLine 1 2⟩,
    ⟨.percent, "%", onFirstLine 2 3⟩, ⟨.integer, "3", onFirstLine 3 4⟩]

def faultyTokens : List Token :=
  [⟨.slash, "/", onFirstLine 4 5⟩, ⟨.integer, "0", onFirstLine 5 6⟩,
    ⟨.plus, "+", onFirstLine 6 7⟩, ⟨.string, "a", onFirstLine 7 10⟩]

theorem sum_eq_fold_remainder :
    lex "-8%3" = .ok ⟨remainderTokens, ⟨4, 1, 5⟩⟩ ∧
    sum (.endOfFile ⟨4, 1, 5⟩) remainderTokens =
      .ok (⟨.integer, "1", onFirstLine 0 4⟩, []) ∧
    lex "-8%3/0+'a'" = .ok ⟨remainderTokens ++ faultyTokens, ⟨10, 1, 11⟩⟩ ∧
    sum (.endOfFile ⟨10, 1, 11⟩) (remainderTokens ++ faultyTokens) =
      .error ⟨.divisionByZero, onFirstLine 5 6⟩ := by
  have hlex : lex "-8%3" = .ok ⟨remainderTokens, ⟨4, 1, 5⟩⟩ := by decide +kernel
  have hlex' : lex "-8%3/0+'a'" = .ok ⟨remainderTokens ++ faultyTokens, ⟨10, 1, 11⟩⟩ := by
    decide +kernel
  have hminus : IsUnary (remainderTokens.take 2) _ := .minus rfl (.literal (by decide))
  have hproduct : IsProduct remainderTokens _ :=
    .operation (.operand hminus) rfl (.literal (by decide))
  have hquotient : IsProduct (remainderTokens ++ faultyTokens.take 2) _ :=
    .operation hproduct rfl (.literal (by decide))
  have hsum : IsSum (remainderTokens ++ faultyTokens.take 2 ++ faultyTokens.drop 2) _ :=
    .operation (.operand hquotient) rfl (.operand (.literal (by decide)))
  refine ⟨hlex, ?_, hlex', ?_⟩
  · obtain ⟨hordered, hreads⟩ := sum_eq_fold (.endOfFile ⟨4, 1, 5⟩)
    exact (hreads _ _ [] (.operand hproduct) nofun).1 (hordered _ _ hlex)
  · obtain ⟨hordered, hreads⟩ := sum_eq_fold (.endOfFile ⟨10, 1, 11⟩)
    exact (hreads _ _ [] hsum nofun).1 (hordered _ _ hlex')

end GuildPolicy.Syntax
