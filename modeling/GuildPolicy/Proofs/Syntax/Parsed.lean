import GuildPolicy.Proofs.Syntax.Statements
import GuildPolicy.Proofs.Syntax.Tokens

namespace GuildPolicy.Syntax

open GuildPolicy.Source GuildPolicy.Text

variable {t : Token} {ts us : List Token} {e : Expression} {l v : Literal} {source : String}
variable {α : Type} {as : List α} {d : DraftStatement} {s : Statement}

def Token.IsSpelled (t : Token) : Prop := ∃ spelling, IsLexeme t.kind t.value spelling

theorem spelled_lay {blanks : List Char} {start : Position} {ps : List Piece}
    (hps : ∀ p ∈ ps, IsLexeme p.kind p.value p.spelling) :
    ∀ t ∈ (lay blanks start ps).tokens, t.IsSpelled := by
  induction ps generalizing start with
  | nil => exact nofun
  | cons p ps ih =>
    obtain ⟨hp, hps⟩ := List.forall_mem_cons.1 hps
    exact List.forall_mem_cons.2 ⟨⟨p.spelling, hp⟩, ih hps⟩

theorem spelled_of_lex {l : Lexed} (h : lex source = .ok l) : ∀ t ∈ l.tokens, t.IsSpelled := by
  obtain ⟨ps, blanks, hcut⟩ := exists_isCut_of_lexFrom h
  have hl := (lexFrom_of_isCut hcut .origin).symm.trans h
  cases hl
  exact spelled_lay hcut.isLexeme

theorem Token.IsSpelled.value_ne (h : t.IsSpelled) (hkind : t.kind = .identifier) :
    t.value ≠ "" := by
  obtain ⟨spelling, h⟩ := h
  generalize t.value = value at h
  rw [hkind] at h
  cases h with
  | mark hm =>
    have hall : ∀ m ∈ marks, m.2 ≠ .identifier := by decide
    exact absurd rfl (hall _ hm)
  | keyword hk =>
    have hall : ∀ k ∈ TokenKind.keywords, k.2 ≠ .identifier := by decide
    exact absurd rfl (hall _ hk)
  | identifier =>
    intro he
    have hlist := congrArg String.toList he
    rw [String.toList_ofList] at hlist
    cases hlist

/-- No plus sign leads. -/
def Literal.IsPlain (l : Literal) : Prop := l.kind = .integer → ∀ cs, l.value.toList ≠ '+' :: cs

theorem Token.IsSpelled.isPlain (h : t.IsSpelled) :
    Literal.IsPlain ⟨.ofToken t.kind, t.value, t.span⟩ := by
  intro hkind cs hvalue
  obtain ⟨spelling, h⟩ := h
  have hkind : t.kind = .integer := by
    dsimp only at hkind
    unfold LiteralKind.ofToken at hkind
    split at hkind
    · cases hkind
    · next hinteger => exact hinteger
    · cases hkind
  generalize t.value = value at h hvalue
  rw [hkind] at h
  cases h with
  | mark hm =>
    have hall : ∀ m ∈ marks, m.2 ≠ .integer := by decide
    exact absurd rfl (hall _ hm)
  | keyword hk =>
    have hall : ∀ k ∈ TokenKind.keywords, k.2 ≠ .integer := by decide
    exact absurd rfl (hall _ hk)
  | integer _ hdigits =>
    dsimp only at hvalue
    rw [String.toList_ofList] at hvalue
    exact absurd (hdigits '+' (hvalue ▸ List.mem_cons_self ..)) (by decide)

theorem toList_toString_ne (n : Int) (cs : List Char) : (toString n).toList ≠ '+' :: cs := by
  intro h
  rw [Int.toString_eq_repr, Int.repr_eq_if] at h
  split at h
  · rw [Nat.toList_repr] at h
    have hplus : '+' ∈ Nat.toDigits 10 n.toNat := h ▸ List.mem_cons_self ..
    exact absurd (Nat.isDigit_of_mem_toDigits (by decide) (by decide) hplus) (by decide)
  · rw [String.toList_append] at h
    cases h

theorem isPlain_of_combine {op : Operator} {r : Literal} {span : Span}
    (h : op.combine l r span = .ok v) : v.IsPlain := by
  obtain ⟨_, _, n, _, _, _, rfl⟩ := combine_eq_ok_iff.1 h
  exact fun _ => toList_toString_ne n

theorem IsUnary.isPlain (h : IsUnary ts e) (hts : ∀ t ∈ ts, t.IsSpelled) (hfold : e.fold = .ok l) :
    l.IsPlain := by
  cases h with
  | literal =>
    cases hfold
    exact (hts _ (List.mem_singleton_self _)).isPlain
  | minus =>
    obtain ⟨_, _, _, _, hcombine⟩ := fold_operation_eq_ok_iff.1 hfold
    exact isPlain_of_combine hcombine

theorem IsChain.isPlain {operator? : TokenKind → Option Operator}
    {IsOperand : List Token → Expression → Prop}
    (hoperand : ∀ {ts e l}, IsOperand ts e → (∀ t ∈ ts, t.IsSpelled) → e.fold = .ok l → l.IsPlain)
    (h : IsChain operator? IsOperand ts e) (hts : ∀ t ∈ ts, t.IsSpelled)
    (hfold : e.fold = .ok l) : l.IsPlain := by
  cases h with
  | operand h => exact hoperand h hts hfold
  | operation =>
    obtain ⟨_, _, _, _, hcombine⟩ := fold_operation_eq_ok_iff.1 hfold
    exact isPlain_of_combine hcombine

theorem IsSum.isPlain (h : IsSum ts e) (hts : ∀ t ∈ ts, t.IsSpelled) (hfold : e.fold = .ok l) :
    l.IsPlain :=
  IsChain.isPlain (IsChain.isPlain IsUnary.isPlain) h hts hfold

/-- What holds of items whose tokens are spelled holds of all items of a spelled text. -/
theorem IsItems.of_spelled {IsItem : List Token → α → Prop} {P : α → Prop}
    (hitem : ∀ {us a}, IsItem us a → (∀ t ∈ us, t.IsSpelled) → P a) (h : IsItems IsItem ts as)
    (hts : ∀ t ∈ ts, t.IsSpelled) : ∀ a ∈ as, P a := by
  induction h with
  | nil => exact nofun
  | cons h _ _ ih =>
    refine List.forall_mem_cons.2 ⟨hitem h fun t ht => ?_, ih fun t ht => ?_⟩
    · exact hts t (List.mem_append_left _ ht)
    · exact hts t (List.mem_append_right _ (List.mem_append_right _ ht))

theorem IsBlock.of_spelled {IsItem : List Token → α → Prop} {P : α → Prop} {brace : Token}
    (hitem : ∀ {us a}, IsItem us a → (∀ t ∈ us, t.IsSpelled) → P a)
    (h : IsBlock IsItem ts as brace) (hts : ∀ t ∈ ts, t.IsSpelled) : ∀ a ∈ as, P a := by
  cases h with
  | mk _ h _ =>
    exact h.of_spelled hitem fun t ht =>
      hts t (List.mem_cons_of_mem _ (List.mem_append_left _ ht))

/-- Its integers are plain and its types have names. -/
def Statement.IsSpelled : Statement → Prop
  | .module b => ∀ p ∈ b.properties, p.value.IsPlain
  | .require b => ∀ n ∈ b.types, n.text ≠ ""
  | .rule _ => True

theorem forall_of_forall₂ {β : Type} {bs : List β} {R : α → β → Prop} {P : β → Prop}
    (h : List.Forall₂ R as bs) (hP : ∀ a ∈ as, ∀ b, R a b → P b) : ∀ b ∈ bs, P b := by
  induction h with
  | nil => exact nofun
  | cons h _ ih =>
    obtain ⟨hfirst, hrest⟩ := List.forall_mem_cons.1 hP
    exact List.forall_mem_cons.2 ⟨hfirst _ h, ih hrest⟩

theorem IsStatement.isSpelled (h : IsStatement ts d) (hts : ∀ t ∈ ts, t.IsSpelled)
    (hs : d.Becomes s) : s.IsSpelled := by
  cases h with
  | @module keyword brace ts drafts _ h =>
    have hdrafts : ∀ d ∈ drafts, ∀ p, d.fold = .ok p → p.value.IsPlain := by
      refine h.of_spelled ?_ fun t ht => hts t (List.mem_cons_of_mem _ ht)
      rintro us _ ⟨_, hsum⟩ hus p hp
      obtain ⟨value, hvalue, rfl⟩ := DraftProperty.fold_eq_ok_iff.1 hp
      exact hsum.isPlain (fun t ht => hus t (List.mem_cons_of_mem _ ht)) hvalue
    cases hs with
    | module hfold => exact forall_of_forall₂ hfold hdrafts
  | @require keyword brace ts ns _ h =>
    cases hs
    refine h.of_spelled (P := fun n => n.text ≠ "") ?_ fun t ht => hts t (List.mem_cons_of_mem _ ht)
    rintro us _ ⟨_, hname⟩ hus
    exact (hus _ (List.mem_cons_of_mem _ (List.mem_singleton_self _))).value_ne hname
  | rule =>
    cases hs
    trivial

theorem countP_isModule {drafts : List DraftStatement} {ss : List Statement}
    (h : List.Forall₂ DraftStatement.Becomes drafts ss) :
    ss.countP Statement.isModule = drafts.countP DraftStatement.isModule := by
  induction h with
  | nil => rfl
  | cons h _ ih => rw [List.countP_cons, List.countP_cons, ih, h.isModule]

theorem isSpelled_of_parse {p : Policy} (h : parse source = .ok p) :
    p.statements.countP Statement.isModule ≤ 1 ∧ ∀ s ∈ p.statements, s.IsSpelled := by
  rw [parse] at h
  split at h
  · next l hl =>
    obtain ⟨hstatements, _⟩ := Lexed.parse_eq_ok_iff.1 h
    obtain ⟨drafts, hdrafts⟩ := statements_sound hstatements
    obtain ⟨hcount, _, hbecomes⟩ := (statements_complete hdrafts).1 hstatements
    rw [countP_isModule hbecomes]
    refine ⟨hcount, forall_of_forall₂ hbecomes ?_⟩
    exact hdrafts.of_spelled (fun h hus s hs => h.isSpelled hus hs) (spelled_of_lex hl)
  · cases h

end GuildPolicy.Syntax
