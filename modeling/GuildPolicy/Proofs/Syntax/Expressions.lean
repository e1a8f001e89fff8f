import GuildPolicy.Proofs.Outcome
import GuildPolicy.Proofs.Syntax.Grammar

namespace GuildPolicy.Syntax

open GuildPolicy.Source

variable {eof t : Token} {ts us rest : List Token} {e : Expression} {l r v : Literal}
variable {op : Operator} {s s' : Span}

section Fold

theorem combine_eq_ok_iff : op.combine l r s = .ok v ↔
    ∃ a b n, operand op l = .ok a ∧ operand op r = .ok b ∧ op.apply s r a b = .ok n ∧
      v = ⟨.integer, toString n, s⟩ := by
  rw [Operator.combine, bind_eq_ok_iff]
  constructor
  · rintro ⟨a, ha, h⟩
    obtain ⟨b, hb, h⟩ := bind_eq_ok_iff.1 h
    obtain ⟨n, hn, h⟩ := bind_eq_ok_iff.1 h
    cases h
    exact ⟨a, b, n, ha, hb, hn, rfl⟩
  · rintro ⟨a, b, n, ha, hb, hn, rfl⟩
    exact ⟨a, ha, bind_eq_ok_iff.2 ⟨b, hb, bind_eq_ok_iff.2 ⟨n, hn, rfl⟩⟩⟩

/-- The span of an operation is only there for its faults. -/
theorem apply_eq_ok_iff {a b n : Int} (s s' : Span) :
    op.apply s r a b = .ok n ↔ op.apply s' r a b = .ok n := by
  have hrange (m : Int) :
      (if InRange m then Except.ok m else .error (⟨.overflow op, s⟩ : SyntaxError)) = .ok n ↔
        (if InRange m then Except.ok m else .error (⟨.overflow op, s'⟩ : SyntaxError)) = .ok n := by
    split
    · exact Iff.rfl
    · exact ⟨nofun, nofun⟩
  cases op with
  | add | subtract | multiply => exact hrange _
  | divide =>
    simp only [Operator.apply]
    split
    · exact Iff.rfl
    · exact hrange _
  | modulo =>
    simp only [Operator.apply]
    split
    · exact Iff.rfl
    · by_cases hq : InRange (a.fdiv b)
      · rw [if_pos hq, if_pos hq]
      · rw [if_neg hq, if_neg hq]
        exact ⟨nofun, nofun⟩

theorem combine_span (h : op.combine l r s = .ok v) : v.span = s := by
  obtain ⟨_, _, _, _, _, _, rfl⟩ := combine_eq_ok_iff.1 h
  rfl

theorem combine_respan (s s' : Span) :
    op.combine l r s = .ok v ↔ ∃ n, op.combine l r s' = .ok n ∧ v = { n with span := s } := by
  constructor
  · intro h
    obtain ⟨a, b, n, ha, hb, hn, rfl⟩ := combine_eq_ok_iff.1 h
    have hn' := (apply_eq_ok_iff s s').1 hn
    exact ⟨_, combine_eq_ok_iff.2 ⟨a, b, n, ha, hb, hn', rfl⟩, rfl⟩
  · rintro ⟨_, h, rfl⟩
    obtain ⟨a, b, n, ha, hb, hn, rfl⟩ := combine_eq_ok_iff.1 h
    have hn' := (apply_eq_ok_iff s' s).1 hn
    exact combine_eq_ok_iff.2 ⟨a, b, n, ha, hb, hn', rfl⟩

theorem fold_operation_eq_ok_iff {left right : Expression} :
    (Expression.binary op left right s).fold = .ok v ↔
      ∃ l r, left.fold = .ok l ∧ right.fold = .ok r ∧ op.combine l r s = .ok v := by
  rw [Expression.fold, bind_eq_ok_iff]
  constructor
  · rintro ⟨l, hl, h⟩
    obtain ⟨r, hr, h⟩ := bind_eq_ok_iff.1 h
    exact ⟨l, r, hl, hr, h⟩
  · rintro ⟨l, r, hl, hr, h⟩
    exact ⟨l, hl, bind_eq_ok_iff.2 ⟨r, hr, h⟩⟩

theorem fold_span (h : e.fold = .ok l) : l.span = e.span := by
  cases e with
  | literal value =>
    cases h
    rfl
  | binary op left right span =>
    obtain ⟨_, _, _, _, hc⟩ := fold_operation_eq_ok_iff.1 h
    exact combine_span hc

theorem negate_eq_ok_iff : negate t l = .ok v ↔
    Operator.subtract.combine ⟨.integer, "0", .point t.span.start⟩ l
      (t.span.to ((Span.point t.span.start).to l.span)) = .ok v := by
  rw [combine_respan _ ((Span.point t.span.start).to l.span), negate]
  dsimp only
  constructor
  · intro h
    split at h
    · next n hn =>
      cases h
      exact ⟨n, hn, by rw [combine_span hn]⟩
    · cases h
  · rintro ⟨n, hn, rfl⟩
    rw [hn, ← combine_span hn]

theorem fold_negation_eq_ok_iff :
    (Expression.negation t e).fold = .ok v ↔ ∃ l, e.fold = .ok l ∧ negate t l = .ok v := by
  rw [Expression.negation, fold_operation_eq_ok_iff]
  constructor
  · rintro ⟨_, l, hz, hl, hc⟩
    cases hz
    rw [← fold_span hl] at hc
    exact ⟨l, hl, negate_eq_ok_iff.2 hc⟩
  · rintro ⟨l, hl, hc⟩
    rw [← fold_span hl]
    exact ⟨_, l, rfl, hl, negate_eq_ok_iff.1 hc⟩

end Fold

section Reading

theorem expect_eq_ok_iff {kinds : List TokenKind} :
    expect eof kinds ts = .ok (t, rest) ↔ ts = t :: rest ∧ t.kind ∈ kinds := by
  cases ts with
  | nil => exact ⟨nofun, nofun⟩
  | cons u us =>
    rw [expect]
    constructor
    · intro h
      split at h
      · next hu =>
        cases h
        exact ⟨rfl, hu⟩
      · cases h
    · rintro ⟨h, ht⟩
      cases h
      exact if_pos ht

theorem expect_of_mem {kinds : List TokenKind} (ht : t.kind ∈ kinds) :
    expect eof kinds (t :: ts) = .ok (t, ts) :=
  expect_eq_ok_iff.2 ⟨rfl, ht⟩

/-- A parser takes phrases off the front of the tokens and makes of each what it becomes, if what
follows cannot be part of it. -/
structure Reads {α β : Type} (read : List Token → Parse α) (IsPhrase : List Token → β → Prop)
    (Becomes : β → α → Prop) (Follows : TokenKind → Prop) : Prop where
  sound : ∀ {ts a rest}, read ts = .ok (a, rest) → ∃ us b, ts = us ++ rest ∧ IsPhrase us b
  complete : ∀ {us b rest a rest'}, IsPhrase us b → (∀ t ∈ rest.head?, Follows t.kind) →
    (read (us ++ rest) = .ok (a, rest') ↔ Becomes b a ∧ rest' = rest)

theorem Reads.weaken {α β : Type} {read : List Token → Parse α} {IsPhrase : List Token → β → Prop}
    {Becomes : β → α → Prop} {Follows Follows' : TokenKind → Prop}
    (h : Reads read IsPhrase Becomes Follows) (hf : ∀ k, Follows' k → Follows k) :
    Reads read IsPhrase Becomes Follows' where
  sound := h.sound
  complete hb hrest := h.complete hb fun t ht => hf _ (hrest t ht)

def Expression.Folds (e : Expression) (l : Literal) : Prop := e.fold = .ok l

theorem literal_eq_ok_iff : literal eof ts = .ok (l, rest) ↔
    ∃ t, ts = t :: rest ∧ t.kind ∈ [TokenKind.string, .integer, .true, .false] ∧
      l = ⟨.ofToken t.kind, t.value, t.span⟩ := by
  rw [literal]
  constructor
  · intro h
    split at h
    · next he =>
      cases h
      obtain ⟨hts, ht⟩ := expect_eq_ok_iff.1 he
      exact ⟨_, hts, ht, rfl⟩
    · cases h
  · rintro ⟨t, rfl, ht, rfl⟩
    rw [expect_of_mem ht]

theorem unary_minus_eq_ok_iff (ht : t.kind = .minus) : unary eof (t :: ts) = .ok (v, rest) ↔
    ∃ l, unary eof ts = .ok (l, rest) ∧ negate t l = .ok v := by
  rw [unary, if_pos ht]
  constructor
  · intro h
    split at h
    · next hu =>
      split at h
      · next hn =>
        cases h
        exact ⟨_, hu, hn⟩
      · cases h
    · cases h
  · rintro ⟨l, hu, hn⟩
    rw [hu]
    dsimp only
    rw [hn]

theorem unary_of_literal {kind : TokenKind}
    (hk : kind ∈ [TokenKind.string, .integer, .true, .false]) : kind ≠ .minus := by
  rintro rfl
  exact absurd hk (by decide)

theorem reads_unary (eof : Token) : Reads (unary eof) IsUnary Expression.Folds fun _ => True where
  sound {ts l rest} h := by
    induction ts generalizing l with
    | nil =>
      obtain ⟨_, hts, _⟩ := literal_eq_ok_iff.1 h
      cases hts
    | cons t ts ih =>
      by_cases ht : t.kind = .minus
      · obtain ⟨l', hu, _⟩ := (unary_minus_eq_ok_iff ht).1 h
        obtain ⟨us, e, rfl, he⟩ := ih hu
        exact ⟨t :: us, _, rfl, .minus ht he⟩
      · rw [unary, if_neg ht] at h
        obtain ⟨t', hts, ht', _⟩ := literal_eq_ok_iff.1 h
        cases hts
        exact ⟨[t], _, rfl, .literal ht'⟩
  complete {us e rest l rest'} h _ := by
    induction h generalizing l with
    | @literal t ht =>
      have hread : unary eof ([t] ++ rest) = literal eof (t :: rest) := by
        rw [List.singleton_append, unary, if_neg (unary_of_literal ht)]
      rw [hread, literal_eq_ok_iff]
      constructor
      · rintro ⟨t', hts, _, rfl⟩
        cases hts
        exact ⟨rfl, rfl⟩
      · rintro ⟨hl, rfl⟩
        cases hl
        exact ⟨t, rfl, ht, rfl⟩
    | @minus t ts e ht h ih =>
      rw [List.cons_append, unary_minus_eq_ok_iff ht, Expression.Folds, fold_negation_eq_ok_iff]
      constructor
      · rintro ⟨l', hu, hn⟩
        obtain ⟨hl', rfl⟩ := ih.1 hu
        exact ⟨⟨l', hl', hn⟩, rfl⟩
      · rintro ⟨⟨l', hl', hn⟩, rfl⟩
        exact ⟨l', ih.2 ⟨hl', rfl⟩, hn⟩

section Chain

variable {operator? : TokenKind → Option Operator} {operand : List Token → Parse Literal}
variable {shorter : ∀ {ts l rest}, operand ts = .ok (l, rest) → rest.length < ts.length}
variable {IsOperand : List Token → Expression → Prop} {Follows : TokenKind → Prop}

theorem operations_nil (l : Literal) : operations operator? operand shorter l [] = .ok (l, []) := by
  rw [operations]

theorem operations_of_none (h : operator? t.kind = none) :
    operations operator? operand shorter l (t :: ts) = .ok (l, t :: ts) := by
  rw [operations]
  simp only [h]

theorem operations_eq_self (h : ∀ t ∈ ts.head?, operator? t.kind = none) :
    operations operator? operand shorter l ts = .ok (l, ts) := by
  cases ts with
  | nil => exact operations_nil l
  | cons t ts => exact operations_of_none (h t rfl)

theorem operations_of_some (h : operator? t.kind = some op) :
    operations operator? operand shorter l (t :: ts) =
      bind (m := Except SyntaxError) (operand ts) fun x =>
        op.combine l x.1 (l.span.to x.1.span) >>= fun v =>
          operations operator? operand shorter v x.2 := by
  rw [operations]
  simp only [h]
  cases operand ts with
  | error e => rfl
  | ok x =>
    obtain ⟨r, rest⟩ := x
    dsimp only [bind, Except.bind]
    cases op.combine l r (l.span.to r.span) with
    | error e => rfl
    | ok v => rfl

theorem operations_of_some_eq_ok_iff (ht : operator? t.kind = some op)
    {x : Literal × List Token} : operations operator? operand shorter l (t :: ts) = .ok x ↔
      ∃ r rest v, operand ts = .ok (r, rest) ∧ op.combine l r (l.span.to r.span) = .ok v ∧
        operations operator? operand shorter v rest = .ok x := by
  rw [operations_of_some ht, bind_eq_ok_iff]
  constructor
  · rintro ⟨⟨r, rest⟩, hr, h⟩
    obtain ⟨v, hv, hx⟩ := bind_eq_ok_iff.1 h
    exact ⟨r, rest, v, hr, hv, hx⟩
  · rintro ⟨r, rest, v, hr, hv, hx⟩
    exact ⟨(r, rest), hr, bind_eq_ok_iff.2 ⟨v, hv, hx⟩⟩

theorem chain_eq_bind : chain operator? operand shorter ts =
    bind (m := Except SyntaxError) (operand ts) fun x =>
      operations operator? operand shorter x.1 x.2 := by
  rw [chain]
  cases operand ts with
  | error e => rfl
  | ok x => rfl

theorem isChain_of_operations (hoperand : Reads operand IsOperand Expression.Folds Follows)
    (h : operations operator? operand shorter l ts = .ok (v, rest))
    (hl : IsChain operator? IsOperand us e) :
    ∃ us' e', ts = us' ++ rest ∧ IsChain operator? IsOperand (us ++ us') e' := by
  -- The chain that was read before the tokens grows at its right end while they get fewer.
  fun_induction operations operator? operand shorter l ts generalizing us e with
  | case1 =>
    cases h
    exact ⟨[], e, rfl, by rwa [List.append_nil]⟩
  | case2 =>
    cases h
    exact ⟨[], e, rfl, by rwa [List.append_nil]⟩
  | case3 => cases h
  | case4 => cases h
  | case5 l t ts op ho r mid hr v' hv ih =>
    obtain ⟨us₁, right, rfl, hright⟩ := hoperand.sound hr
    obtain ⟨us₂, e', rfl, he'⟩ := ih h (hl.operation ho hright)
    refine ⟨t :: (us₁ ++ us₂), e', by simp only [List.cons_append, List.append_assoc], ?_⟩
    simpa only [List.append_assoc, List.cons_append] using he'

theorem chain_append_eq_ok_iff (hoperand : Reads operand IsOperand Expression.Folds Follows)
    (hfollows : ∀ {k op}, operator? k = some op → Follows k)
    {x : Literal × List Token} (h : IsChain operator? IsOperand us e)
    (hrest : ∀ t ∈ rest.head?, Follows t.kind) :
    chain operator? operand shorter (us ++ rest) = .ok x ↔
      ∃ l, e.fold = .ok l ∧ operations operator? operand shorter l rest = .ok x := by
  -- To the chain before the last operator, that operator and its operand are part of the rest.
  induction h generalizing rest with
  | operand h =>
    rw [chain_eq_bind, bind_eq_ok_iff]
    constructor
    · rintro ⟨⟨l, rest'⟩, hl, hx⟩
      obtain ⟨hfold, rfl⟩ := (hoperand.complete h hrest).1 hl
      exact ⟨l, hfold, hx⟩
    · rintro ⟨l, hfold, hx⟩
      exact ⟨(l, rest), (hoperand.complete h hrest).2 ⟨hfold, rfl⟩, hx⟩
  | @operation ts us t op left right hl ht hr ih =>
    have hfirst : ∀ t' ∈ (t :: (us ++ rest)).head?, Follows t'.kind := by
      intro t' ht'
      cases ht'
      exact hfollows ht
    rw [List.append_assoc, List.cons_append, ih hfirst]
    constructor
    · rintro ⟨l, hl, hx⟩
      obtain ⟨r, rest', v, hright, hv, hv'⟩ := (operations_of_some_eq_ok_iff ht).1 hx
      obtain ⟨hfold, rfl⟩ := (hoperand.complete hr hrest).1 hright
      rw [fold_span hl, fold_span hfold] at hv
      exact ⟨v, fold_operation_eq_ok_iff.2 ⟨l, r, hl, hfold, hv⟩, hv'⟩
    · rintro ⟨v, hv, hx⟩
      obtain ⟨l, r, hl, hfold, hv⟩ := fold_operation_eq_ok_iff.1 hv
      rw [← fold_span hl, ← fold_span hfold] at hv
      have hright := (hoperand.complete hr hrest).2 ⟨hfold, rfl⟩
      exact ⟨l, hl, (operations_of_some_eq_ok_iff ht).2 ⟨r, rest, v, hright, hv, hx⟩⟩

theorem reads_chain (hoperand : Reads operand IsOperand Expression.Folds Follows)
    (hfollows : ∀ {k op}, operator? k = some op → Follows k) :
    Reads (chain operator? operand shorter) (IsChain operator? IsOperand) Expression.Folds
      fun k => Follows k ∧ operator? k = none where
  sound h := by
    rw [chain_eq_bind] at h
    obtain ⟨⟨l, mid⟩, hl, hmid⟩ := bind_eq_ok_iff.1 h
    obtain ⟨us, e, rfl, he⟩ := hoperand.sound hl
    obtain ⟨us', e', rfl, he'⟩ := isChain_of_operations hoperand hmid (.operand he)
    exact ⟨us ++ us', e', (List.append_assoc ..).symm, he'⟩
  complete {us e rest l rest'} h hrest := by
    rw [chain_append_eq_ok_iff hoperand hfollows h fun t ht => (hrest t ht).1]
    have hstop (l : Literal) : operations operator? operand shorter l rest = .ok (l, rest) :=
      operations_eq_self fun t ht => (hrest t ht).2
    constructor
    · rintro ⟨l', hl', hx⟩
      rw [hstop] at hx
      cases hx
      exact ⟨hl', rfl⟩
    · rintro ⟨hl', rfl⟩
      exact ⟨l, hl', hstop l⟩

end Chain

theorem reads_product (eof : Token) : Reads (product eof) IsProduct Expression.Folds
    fun k => Operator.ofFactor? k = none :=
  (reads_chain (reads_unary eof) fun _ => trivial).weaken fun _ hk => ⟨trivial, hk⟩

/-- No kind of token is both an operator between factors and one between summands. -/
theorem ofFactor?_of_ofSummand? {k : TokenKind} (h : Operator.ofSummand? k = some op) :
    Operator.ofFactor? k = none := by
  cases k with
  | plus | minus => rfl
  | _ => cases h

theorem reads_sum (eof : Token) : Reads (sum eof) IsSum Expression.Folds
    fun k => Operator.ofFactor? k = none ∧ Operator.ofSummand? k = none :=
  reads_chain (reads_product eof) ofFactor?_of_ofSummand?

end Reading

end GuildPolicy.Syntax
