import GuildPolicy.Proofs.Syntax.Folding
import GuildPolicy.Proofs.Syntax.Positions
import GuildPolicy.Proofs.Syntax.Statements
import Mathlib.Data.List.DropRight

namespace GuildPolicy.Syntax

open GuildPolicy.Source

variable {ts us vs semicolons : List Token} {t u : Token} {a b s : Span} {ss : List Span}
variable {α β : Type} {as : List α} {bs : List β}

section Tokens

/-- From the start of the first token to the end of the last. -/
structure Spans (ts : List Token) (s : Span) : Prop where
  start : ∃ t ∈ ts.head?, s.start = t.span.start
  stop : ∃ t ∈ ts.getLast?, s.stop = t.span.stop

theorem InOrder.of_prefix (h : InOrder ts) (hs : us <+: ts) : InOrder us := h.sublist hs.sublist

theorem InOrder.of_suffix (h : InOrder ts) (hs : us <:+ ts) : InOrder us := h.sublist hs.sublist

theorem InOrder.head_le (h : InOrder ts) (ht : t ∈ ts.head?) (hu : u ∈ ts) :
    t.span.start.offset ≤ u.span.start.offset := by
  cases ts with
  | nil => cases hu
  | cons first rest =>
    cases ht
    rcases List.mem_cons.1 hu with rfl | hu
    · exact Nat.le_refl _
    · have hlater := (List.pairwise_cons.1 h.ordered).1 u hu
      have hinner := h.inner t (List.mem_cons_self ..)
      omega

theorem InOrder.le_getLast (h : InOrder ts) (ht : t ∈ ts.getLast?) (hu : u ∈ ts) :
    u = t ∨ u.span.stop.offset < t.span.stop.offset := by
  obtain ⟨init, rfl⟩ := List.getLast?_eq_some_iff.1 ht
  rcases List.mem_append.1 hu with hu | hu
  · have hbefore := (List.pairwise_append.1 h.ordered).2.2 u hu t (List.mem_singleton_self t)
    have hinner := h.inner t (List.mem_append_right _ (List.mem_singleton_self t))
    exact .inr (by omega)
  · exact .inl (List.mem_singleton.1 hu)

theorem Spans.singleton (t : Token) : Spans [t] t.span := ⟨⟨t, rfl, rfl⟩, ⟨t, rfl, rfl⟩⟩

/-- The spans of the first tokens and of the last ones make the span of all of them. -/
theorem Spans.to (h : InOrder ts) (ha : Spans us a) (hb : Spans vs b) (hus : us <+: ts)
    (hvs : vs <:+ ts) : Spans ts (a.to b) := by
  obtain ⟨first, hfirst, hstart⟩ := ha.start
  obtain ⟨last, hlast, hstop⟩ := hb.stop
  obtain ⟨first', hfirst', hstart'⟩ := hb.start
  obtain ⟨last', hlast', hstop'⟩ := ha.stop
  have hmem' : first' ∈ ts := hvs.subset (List.mem_of_mem_head? hfirst')
  have hmem : last' ∈ ts := hus.subset (List.mem_of_mem_getLast? hlast')
  have hhead : first ∈ ts.head? := by
    obtain ⟨rest, rfl⟩ := hus
    exact List.mem_head?_append_of_mem_head? hfirst
  have hend : last ∈ ts.getLast? := by
    obtain ⟨init, rfl⟩ := hvs
    exact List.mem_getLast?_append_of_mem_getLast? hlast
  refine ⟨⟨first, hhead, ?_⟩, ⟨last, hend, ?_⟩⟩
  · have hle := h.head_le hhead hmem'
    rw [← hstart, ← hstart'] at hle
    rw [Span.to, if_neg (Nat.not_lt_of_le hle), hstart]
  · rw [Span.to]
    rcases h.le_getLast hend hmem with rfl | hlt
    · rw [hstop, hstop', if_neg (Nat.lt_irrefl _)]
    · rw [← hstop, ← hstop'] at hlt
      rw [if_pos hlt, hstop]

theorem Spans.mem_head (h : Spans ts s) : ∃ t ∈ ts, s.start = t.span.start := by
  obtain ⟨t, ht, hstart⟩ := h.start
  exact ⟨t, List.mem_of_mem_head? ht, hstart⟩

theorem Spans.mem_getLast (h : Spans ts s) : ∃ t ∈ ts, s.stop = t.span.stop := by
  obtain ⟨t, ht, hstop⟩ := h.stop
  exact ⟨t, List.mem_of_mem_getLast? ht, hstop⟩

theorem Spans.point_to (h : InOrder (t :: ts)) (hs : Spans ts s) :
    (Span.point t.span.start).to s = ⟨t.span.start, s.stop⟩ := by
  obtain ⟨first, hfirst, hstart⟩ := hs.mem_head
  obtain ⟨last, hlast, hstop⟩ := hs.mem_getLast
  have hlater := (List.pairwise_cons.1 h.ordered).1
  have hext := h.inner t (List.mem_cons_self ..)
  have hext' := h.inner last (List.mem_cons_of_mem _ hlast)
  have hlo : ¬s.start.offset < t.span.start.offset := by
    have hle := hlater first hfirst
    rw [hstart]
    omega
  have hhi : t.span.start.offset < s.stop.offset := by
    have hle := hlater last hlast
    rw [hstop]
    omega
  simp [Span.to, Span.point, hlo, hhi]

theorem Spans.cons (h : Spans ts s) (t : Token) : Spans (t :: ts) ⟨t.span.start, s.stop⟩ := by
  obtain ⟨last, hlast, hstop⟩ := h.stop
  have hlast' : last ∈ ([t] ++ ts).getLast? := List.mem_getLast?_append_of_mem_getLast? hlast
  exact ⟨⟨t, rfl, rfl⟩, ⟨last, hlast', hstop⟩⟩

end Tokens

section Nodes

/-- A constant, with the tokens of the expression that amounts to it. -/
structure ValueOn (ts : List Token) (v : Literal) : Prop where
  amounts : ∃ e, IsSum ts e ∧ e.fold = .ok v
  spans : Spans ts v.span

/-- `identifier sum` -/
inductive PropertyOn : List Token → Property → Prop
  | mk {name : Token} {ts : List Token} {p : Property} (hkind : name.kind = .identifier)
      (hname : p.name = name.value) (h : ValueOn ts p.value) (hspan : Spans (name :: ts) p.span) :
      PropertyOn (name :: ts) p

/-- `"type" identifier` -/
inductive RequiredTypeOn : List Token → Name → Prop
  | mk {keyword name : Token} {n : Name} (hkey : keyword.kind = .type)
      (hkind : name.kind = .identifier) (hname : n.text = name.value)
      (hspan : Spans [keyword, name] n.span) : RequiredTypeOn [keyword, name] n

/-- `identifier` -/
inductive NameOn : List Token → Name → Prop
  | mk {t : Token} {n : Name} (hkind : t.kind = .identifier) (hname : n.text = t.value)
      (hspan : Spans [t] n.span) : NameOn [t] n

/-- `(identifier ("," identifier)* ","?)?` -/
inductive NamesOn : List Token → List Name → Prop
  | nil : NamesOn [] []
  | last {ts : List Token} {n : Name} (h : NameOn ts n) : NamesOn ts [n]
  | cons {comma : Token} {ts us : List Token} {n : Name} {ns : List Name} (h : NameOn ts n)
      (hcomma : comma.kind = .comma) (hrest : NamesOn us ns) :
      NamesOn (ts ++ comma :: us) (n :: ns)

/-- `("allow" | "deny") identifier (identifier | "*") "{" names "}"` -/
inductive RuleOn : List Token → Rule → Prop
  | mk {keyword subject target brace brace' : Token} {ts : List Token} {r : Rule}
      (hkey : keyword.kind ∈ [TokenKind.allow, .deny]) (hkind : r.kind = .ofToken keyword.kind)
      (hsubject : NameOn [subject] r.subject) (hstar : target.kind ∈ [TokenKind.identifier, .star])
      (htarget : r.target = .ofToken target) (htargetSpan : Spans [target] r.targetSpan)
      (hopen : brace.kind = .braceOpen) (hnames : NamesOn ts r.permissions)
      (hclose : brace'.kind = .braceClose)
      (hspan : Spans (keyword :: subject :: target :: brace :: (ts ++ [brace'])) r.span) :
      RuleOn (keyword :: subject :: target :: brace :: (ts ++ [brace'])) r

/-- `"module" "{" (property ";"*)* "}"`, `"require" "{" (requiredType ";"*)* "}"`, or a rule. -/
inductive StatementOn : List Token → Statement → Prop
  | module {keyword brace : Token} {ts : List Token} {b : ModuleBlock}
      (hkey : keyword.kind = .module) (h : IsBlock PropertyOn ts b.properties brace)
      (hspan : Spans (keyword :: ts) b.span) : StatementOn (keyword :: ts) (.module b)
  | require {keyword brace : Token} {ts : List Token} {b : RequireBlock}
      (hkey : keyword.kind = .require) (h : IsBlock RequiredTypeOn ts b.types brace)
      (hspan : Spans (keyword :: ts) b.span) : StatementOn (keyword :: ts) (.require b)
  | rule {ts : List Token} {r : Rule} (h : RuleOn ts r) : StatementOn ts (.rule r)

/-- `policy = (statement ";"*)*`. Semicolons after the last statement are not spanned, and if there
is no statement, the span is the start of the text. -/
structure PolicyOn (ts : List Token) (p : Policy) : Prop where
  statements : IsItems StatementOn ts p.statements
  spans : p.statements ≠ [] → Spans (ts.rdropWhile (·.kind = .semicolon)) p.span
  point : p.statements = [] → p.span = .point .origin

end Nodes

section Parsing

variable {e : Expression} {operator? : TokenKind → Option Operator}
variable {IsOperand : List Token → Expression → Prop}

theorem IsUnary.spans (h : IsUnary ts e) (hts : InOrder ts) : Spans ts e.span := by
  induction h with
  | literal => exact .singleton _
  | @minus t ts e ht h ih =>
    have he := ih (hts.of_suffix (List.suffix_cons t ts))
    change Spans (t :: ts) (t.span.to ((Span.point t.span.start).to e.span))
    rw [he.point_to hts]
    exact .to hts (.singleton t) (he.cons t) (List.prefix_append [t] ts) (List.suffix_refl _)

theorem IsChain.spans
    (hoperand : ∀ {ts e}, IsOperand ts e → InOrder ts → Spans ts e.span)
    (h : IsChain operator? IsOperand ts e) (hts : InOrder ts) : Spans ts e.span := by
  induction h with
  | operand h => exact hoperand h hts
  | @operation ts us t op left right hl ht hr ih =>
    have hright : us <:+ ts ++ t :: us := ⟨ts ++ [t], by simp⟩
    exact .to hts (ih (hts.of_prefix (List.prefix_append ..))) (hoperand hr (hts.of_suffix hright))
      (List.prefix_append ..) hright

theorem IsSum.spans (h : IsSum ts e) (hts : InOrder ts) : Spans ts e.span :=
  IsChain.spans (IsChain.spans IsUnary.spans) h hts

theorem IsItems.map {IsItem : List Token → α → Prop} {ItemOn : List Token → β → Prop}
    {Becomes : α → β → Prop} (h : IsItems IsItem ts as) (hbs : List.Forall₂ Becomes as bs)
    (hitem : ∀ {us a b}, us.Sublist ts → IsItem us a → Becomes a b → ItemOn us b) :
    IsItems ItemOn ts bs := by
  induction h generalizing bs with
  | nil =>
    cases hbs
    exact .nil
  | @cons ts semicolons us a as ha hsemi hrest ih =>
    cases hbs with
    | cons hab hbs =>
      have hafter : us.Sublist (ts ++ (semicolons ++ us)) :=
        (List.sublist_append_right ..).trans (List.sublist_append_right ..)
      have hrest' := ih hbs fun hvs => hitem (hvs.trans hafter)
      exact .cons (hitem (List.sublist_append_left ..) ha hab) hsemi hrest'

theorem IsBlock.map {IsItem : List Token → α → Prop} {ItemOn : List Token → β → Prop}
    {Becomes : α → β → Prop} {brace : Token} (h : IsBlock IsItem ts as brace)
    (hbs : List.Forall₂ Becomes as bs)
    (hitem : ∀ {us a b}, us.Sublist ts → IsItem us a → Becomes a b → ItemOn us b) :
    IsBlock ItemOn ts bs brace := by
  cases h with
  | mk hopen h hclose =>
    refine .mk hopen (h.map hbs fun hus => hitem ?_) hclose
    exact (hus.trans (List.sublist_append_left ..)).cons _

/-- The span from a keyword to the brace that closes its block. -/
theorem IsBlock.spans {IsItem : List Token → α → Prop} {keyword brace : Token}
    (h : IsBlock IsItem ts as brace) (hts : InOrder (keyword :: ts)) :
    Spans (keyword :: ts) (keyword.span.to brace.span) := by
  cases h with
  | @mk _ _ ts as hopen h hclose =>
    exact .to hts (.singleton keyword) (.singleton brace) (List.prefix_append [keyword] _)
      ⟨_ :: _ :: ts, rfl⟩

theorem IsProperty.on {d : DraftProperty} {p : Property} (h : IsProperty ts d)
    (hp : d.fold = .ok p) (hts : InOrder ts) : PropertyOn ts p := by
  cases h with
  | @mk name ts e hkind h =>
    obtain ⟨v, hv, rfl⟩ := DraftProperty.fold_eq_ok_iff.1 hp
    have hvalue : Spans ts v.span := by
      rw [fold_span hv]
      exact h.spans (hts.of_suffix (List.suffix_cons name ts))
    exact .mk hkind rfl ⟨⟨e, h, hv⟩, hvalue⟩ <|
      .to hts (.singleton name) hvalue (List.prefix_append [name] ts) (List.suffix_cons name ts)

theorem IsRequiredType.on {n : Name} (h : IsRequiredType ts n) (hts : InOrder ts) :
    RequiredTypeOn ts n := by
  cases h with
  | @mk keyword name hkey hkind =>
    exact .mk hkey hkind rfl <| .to hts (.singleton keyword) (.singleton name)
      (List.prefix_append [keyword] [name]) (List.suffix_append [keyword] [name])

theorem NameOn.toName (ht : t.kind = .identifier) : NameOn [t] t.toName :=
  .mk ht rfl (.singleton t)

theorem IsNames.on {ns : List Name} (h : IsNames ts ns) : NamesOn ts ns := by
  induction h with
  | nil => exact .nil
  | last ht => exact .last (.toName ht)
  | cons ht hcomma h ih => exact .cons (.toName ht) hcomma ih

theorem IsRule.on {r : Rule} (h : IsRule ts r) (hts : InOrder ts) : RuleOn ts r := by
  cases h with
  | @mk keyword subject target brace brace' ts ns hkey hsubject hstar hopen h hclose =>
    refine .mk hkey rfl (.toName hsubject) hstar rfl (.singleton target) hopen h.on hclose ?_
    exact .to hts (.singleton keyword) (.singleton brace') (List.prefix_append [keyword] _)
      ⟨keyword :: subject :: target :: brace :: ts, rfl⟩

theorem IsStatement.on {d : DraftStatement} {s : Statement} (h : IsStatement ts d)
    (hs : d.Becomes s) (hts : InOrder ts) : StatementOn ts s := by
  cases h with
  | @module keyword brace ts drafts hkey h =>
    cases hs with
    | module hps =>
      refine .module hkey (h.map hps fun hus hd hp => hd.on hp ?_) (h.spans hts)
      exact hts.sublist (hus.cons keyword)
  | @require keyword brace ts ns hkey h =>
    cases hs
    have hns : List.Forall₂ Eq ns ns := List.forall₂_refl ns
    refine .require hkey (h.map hns ?_) (h.spans hts)
    rintro us n _ hus hn rfl
    exact hn.on (hts.sublist (hus.cons keyword))
  | rule h =>
    cases hs
    exact .rule (h.on hts)

theorem IsItems.ends {IsItem : List Token → α → Prop} (h : IsItems IsItem ts as) (hne : as ≠ []) :
    ∃ body semicolons first last us vs, ts = body ++ semicolons ∧
      (∀ t ∈ semicolons, t.kind = .semicolon) ∧ IsItems IsItem body as ∧
      as.head? = some first ∧ IsItem us first ∧ us <+: body ∧
      as.getLast? = some last ∧ IsItem vs last ∧ vs <:+ body := by
  induction h with
  | nil => exact absurd rfl hne
  | @cons ts semicolons us a as ha hsemi hrest ih =>
    cases hrest with
    | nil =>
      have hbody : IsItems IsItem (ts ++ ([] ++ [])) [a] := .cons ha nofun .nil
      rw [List.append_nil, List.append_nil] at hbody
      refine ⟨ts, semicolons, a, a, ts, ts, ?_, hsemi, hbody, rfl, ha, ?_, rfl, ha, ?_⟩
      · rw [List.append_nil]
      · exact List.prefix_refl ts
      · exact List.suffix_refl ts
    | cons hb hsemi' hrest' =>
      obtain ⟨body, semicolons', _, last, _, vs, htext, hsemi', hbody, _, _, _, hlast, hvs,
        hsuffix⟩ := ih (List.cons_ne_nil _ _)
      refine ⟨ts ++ (semicolons ++ body), semicolons', a, last, ts, vs, ?_, hsemi',
        .cons ha hsemi hbody, rfl, ha, List.prefix_append .., ?_, hvs, ?_⟩
      · rw [htext]
        simp only [List.append_assoc]
      · rw [List.getLast?_cons_cons]
        exact hlast
      · rw [← List.append_assoc]
        exact hsuffix.trans (List.suffix_append ..)

theorem IsItems.mem {IsItem : List Token → α → Prop} {a : α} (h : IsItems IsItem ts as)
    (ha : a ∈ as) : ∃ us, us.Sublist ts ∧ IsItem us a := by
  induction h with
  | nil => cases ha
  | @cons ts semicolons rest b bs hb _ _ ih =>
    rcases List.mem_cons.1 ha with rfl | ha
    · exact ⟨ts, List.sublist_append_left .., hb⟩
    · obtain ⟨us, hus, hitem⟩ := ih ha
      have hafter : rest.Sublist (ts ++ (semicolons ++ rest)) :=
        (List.sublist_append_right ..).trans (List.sublist_append_right ..)
      exact ⟨us, hus.trans hafter, hitem⟩

theorem StatementOn.last {s : Statement} (h : StatementOn ts s) :
    ∃ t ∈ ts.getLast?, t.kind ≠ .semicolon := by
  have hclosed {brace : Token} (init : List Token) (hclose : brace.kind = .braceClose) :
      ∃ t ∈ (init ++ [brace]).getLast?, t.kind ≠ .semicolon := by
    refine ⟨brace, List.getLast?_concat, ?_⟩
    rw [hclose]
    exact nofun
  have hblock {α : Type} {IsItem : List Token → α → Prop} {as : List α} {keyword brace : Token}
      {ts : List Token} (h : IsBlock IsItem ts as brace) :
      ∃ t ∈ (keyword :: ts).getLast?, t.kind ≠ .semicolon := by
    cases h with
    | @mk brace' _ ts _ hopen h hclose => exact hclosed (keyword :: brace' :: ts) hclose
  cases h with
  | module _ h => exact hblock h
  | require _ h => exact hblock h
  | rule h =>
    cases h with
    | @mk keyword subject target brace _ ts _ _ _ _ _ _ _ _ _ hclose =>
      exact hclosed (keyword :: subject :: target :: brace :: ts) hclose

theorem StatementOn.spans {s : Statement} (h : StatementOn ts s) : Spans ts s.span := by
  cases h with
  | module _ _ hspan => exact hspan
  | require _ _ hspan => exact hspan
  | rule h =>
    cases h with
    | mk _ _ _ _ _ _ _ _ _ hspan => exact hspan

theorem rdropWhile_semicolons (hsemi : ∀ t ∈ semicolons, t.kind = .semicolon)
    (hvs : vs <:+ ts) (hlast : ∃ t ∈ vs.getLast?, t.kind ≠ .semicolon) :
    (ts ++ semicolons).rdropWhile (·.kind = .semicolon) = ts := by
  obtain ⟨before, rfl⟩ := hvs
  obtain ⟨t, ht, hkind⟩ := hlast
  obtain ⟨init, rfl⟩ := List.getLast?_eq_some_iff.1 ht
  rw [List.rdropWhile, List.reverse_append, List.dropWhile_append_of_pos]
  · simp [hkind]
  · intro u hu
    exact decide_eq_true (hsemi u (List.mem_reverse.1 hu))

theorem policyOn_of_parse {source : String} {l : Lexed} {p : Policy} (hl : lex source = .ok l)
    (hp : parse source = .ok p) : PolicyOn l.tokens p := by
  have hts := inOrder_of_lex hl
  simp only [parse, hl] at hp
  obtain ⟨hstatements, hspan⟩ := Lexed.parse_eq_ok_iff.1 hp
  obtain ⟨drafts, hdrafts⟩ := statements_sound hstatements
  obtain ⟨_, _, hbecomes⟩ := (statements_complete hdrafts).1 hstatements
  have hon : IsItems StatementOn l.tokens p.statements :=
    hdrafts.map hbecomes fun hus h hs => h.on hs (hts.sublist hus)
  refine ⟨hon, fun hne => ?_, fun hnil => ?_⟩
  · obtain ⟨body, _, first, last, us, vs, htext, hsemi, _, hfirst, hus, hprefix, hlast, hvs,
      hsuffix⟩ := hon.ends hne
    rw [htext, rdropWhile_semicolons hsemi hsuffix hvs.last, hspan, statementsSpan,
      hfirst, hlast]
    have hbody : InOrder body := hts.of_prefix (htext ▸ List.prefix_append ..)
    exact .to hbody hus.spans hvs.spans hprefix hsuffix
  · rw [hspan, hnil]
    rfl

end Parsing

/-- The span of a node, and the nodes in it. -/
inductive SpanTree
  | node (span : Span) (parts : List SpanTree)

namespace SpanTree

def span : SpanTree → Span
  | node s _ => s

def leaf (s : Span) : SpanTree := node s []

/-- The parts of each node lie in it, apart from each other and in their order. -/
inductive Nested : SpanTree → Prop
  | node {s : Span} {parts : List SpanTree}
      (within : ∀ part ∈ parts,
        s.start.offset ≤ part.span.start.offset ∧ part.span.stop.offset ≤ s.stop.offset)
      (apart : parts.Pairwise fun a b => a.span.stop.offset ≤ b.span.start.offset)
      (nested : ∀ part ∈ parts, Nested part) : Nested (node s parts)

end SpanTree

def Property.tree (p : Property) : SpanTree := .node p.span [.leaf p.value.span]

def Statement.tree : Statement → SpanTree
  | .module b => .node b.span (b.properties.map Property.tree)
  | .require b => .node b.span (b.types.map fun n => .leaf n.span)
  | .rule r =>
    .node r.span ((r.subject.span :: r.targetSpan :: r.permissions.map Name.span).map .leaf)

def Policy.tree (p : Policy) : SpanTree := .node p.span (p.statements.map Statement.tree)

section Nested

/-- The spans of groups of the tokens, one group after the other. -/
inductive Groups : List Token → List Span → Prop
  | nil (ts : List Token) : Groups ts []
  | cons {ts us after : List Token} {s : Span} {ss : List Span} (h : Spans us s)
      (hrest : Groups after ss) (hsub : (us ++ after).Sublist ts) : Groups ts (s :: ss)

theorem Groups.sublist (h : Groups us ss) (hs : us.Sublist ts) : Groups ts ss := by
  cases h with
  | nil => exact .nil ts
  | cons h hrest hsub => exact .cons h hrest (hsub.trans hs)

theorem Groups.mem (h : Groups ts ss) (hs : s ∈ ss) : ∃ us, Spans us s ∧ us.Sublist ts := by
  induction h with
  | nil => cases hs
  | cons h _ hsub ih =>
    rcases List.mem_cons.1 hs with rfl | hs
    · exact ⟨_, h, (List.sublist_append_left ..).trans hsub⟩
    · obtain ⟨us, hus, hafter⟩ := ih hs
      exact ⟨us, hus, hafter.trans ((List.sublist_append_right ..).trans hsub)⟩

theorem Groups.within (h : Groups ts ss) (hts : InOrder ts) (hspans : Spans ts s) (ha : a ∈ ss) :
    s.start.offset ≤ a.start.offset ∧ a.stop.offset ≤ s.stop.offset := by
  obtain ⟨us, hus, hsub⟩ := h.mem ha
  obtain ⟨first, hfirst, hstart⟩ := hspans.start
  obtain ⟨last, hlast, hstop⟩ := hspans.stop
  obtain ⟨t, ht, hstart'⟩ := hus.mem_head
  obtain ⟨u, hu, hstop'⟩ := hus.mem_getLast
  rw [hstart, hstop, hstart', hstop']
  refine ⟨hts.head_le hfirst (hsub.subset ht), ?_⟩
  rcases hts.le_getLast hlast (hsub.subset hu) with rfl | hlt
  · exact Nat.le_refl _
  · exact Nat.le_of_lt hlt

theorem Groups.pairwise (h : Groups ts ss) (hts : InOrder ts) :
    ss.Pairwise fun a b => a.stop.offset ≤ b.start.offset := by
  induction h with
  | nil => exact .nil
  | cons h hrest hsub ih =>
    have hsplit := hts.sublist hsub
    refine .cons ?_ (ih (hsplit.of_suffix (List.suffix_append ..)))
    intro b hb
    obtain ⟨vs, hvs, hafter⟩ := hrest.mem hb
    obtain ⟨t, ht, hstop⟩ := h.mem_getLast
    obtain ⟨u, hu, hstart⟩ := hvs.mem_head
    rw [hstop, hstart]
    exact (List.pairwise_append.1 hsplit.ordered).2.2 t ht u (hafter.subset hu)

theorem Groups.nested {parts : List SpanTree} (h : Groups ts (parts.map SpanTree.span))
    (hts : InOrder ts) (hspans : Spans ts s) (hparts : ∀ part ∈ parts, part.Nested) :
    (SpanTree.node s parts).Nested :=
  .node (fun _ hpart => h.within hts hspans (List.mem_map_of_mem hpart))
    (List.pairwise_map.1 (h.pairwise hts)) hparts

theorem SpanTree.nested_leaf (s : Span) : (leaf s).Nested := .node nofun .nil nofun

theorem SpanTree.map_span_leaf (ss : List Span) : (ss.map leaf).map span = ss := by
  rw [List.map_map]
  exact List.map_id ss

section Items

variable {ItemOn : List Token → α → Prop} {tree : α → SpanTree} {keyword brace : Token}
variable (hspan : ∀ {us a}, ItemOn us a → Spans us (tree a).span)
variable (hnested : ∀ {us a}, InOrder us → ItemOn us a → (tree a).Nested)
include hspan

theorem IsItems.groups (h : IsItems ItemOn ts as) :
    Groups ts ((as.map tree).map SpanTree.span) := by
  induction h with
  | nil => exact .nil []
  | @cons ts semicolons rest a as h _ _ ih =>
    have hsub : (ts ++ rest).Sublist (ts ++ (semicolons ++ rest)) :=
      (List.Sublist.refl ts).append (List.sublist_append_right ..)
    exact .cons (hspan h) ih hsub

include hnested

theorem IsItems.nested (h : IsItems ItemOn us as) (hts : InOrder ts) (hs : Spans ts s)
    (hus : us.Sublist ts) : (SpanTree.node s (as.map tree)).Nested := by
  have hgroups : Groups us ((as.map tree).map SpanTree.span) := h.groups hspan
  apply (hgroups.sublist hus).nested hts hs
  intro part hpart
  obtain ⟨a, ha, rfl⟩ := List.mem_map.1 hpart
  obtain ⟨vs, hvs, hon⟩ := h.mem ha
  exact hnested (hts.sublist (hvs.trans hus)) hon

theorem IsBlock.nested (h : IsBlock ItemOn ts as brace) (hts : InOrder (keyword :: ts))
    (hs : Spans (keyword :: ts) s) : (SpanTree.node s (as.map tree)).Nested := by
  cases h with
  | mk _ h _ =>
    exact h.nested hspan hnested hts hs (((List.sublist_append_left ..).cons _).cons keyword)

end Items

theorem PropertyOn.spans {p : Property} (h : PropertyOn ts p) : Spans ts p.span := by
  cases h with
  | mk _ _ _ hspan => exact hspan

theorem PropertyOn.nested {p : Property} (hts : InOrder ts) (h : PropertyOn ts p) :
    p.tree.Nested := by
  cases h with
  | @mk name ts _ _ _ h hspan =>
    have hvalue : Groups (name :: ts) [p.value.span] := by
      apply Groups.cons h.spans (.nil [])
      rw [List.append_nil]
      exact List.sublist_cons_self name ts
    exact hvalue.nested hts hspan (List.forall_mem_singleton.2 (SpanTree.nested_leaf _))

theorem RequiredTypeOn.spans {n : Name} (h : RequiredTypeOn ts n) : Spans ts n.span := by
  cases h with
  | mk _ _ _ hspan => exact hspan

theorem NameOn.spans {n : Name} (h : NameOn ts n) : Spans ts n.span := by
  cases h with
  | mk _ _ hspan => exact hspan

theorem NamesOn.groups {ns : List Name} (h : NamesOn ts ns) : Groups ts (ns.map Name.span) := by
  induction h with
  | nil => exact .nil []
  | @last ts n h =>
    apply Groups.cons h.spans (.nil [])
    rw [List.append_nil]
  | @cons comma ts us n ns h _ _ ih =>
    exact .cons h.spans ih ((List.Sublist.refl ts).append (List.sublist_cons_self comma us))

theorem RuleOn.nested {r : Rule} (hts : InOrder ts) (h : RuleOn ts r) :
    (Statement.rule r).tree.Nested := by
  cases h with
  | @mk keyword subject target brace brace' ts _ _ _ hsubject _ _ htarget _ hnames _ hspan =>
    have hlast : ([target] ++ ts).Sublist (target :: brace :: (ts ++ [brace'])) :=
      .cons_cons target (.cons brace (List.sublist_append_left ..))
    have hgroups : Groups (keyword :: subject :: target :: brace :: (ts ++ [brace']))
        (r.subject.span :: r.targetSpan :: r.permissions.map Name.span) :=
      .cons hsubject.spans (.cons htarget hnames.groups (List.Sublist.refl _))
        (.cons keyword (.cons_cons subject hlast))
    rw [← SpanTree.map_span_leaf (r.subject.span :: _)] at hgroups
    apply hgroups.nested hts hspan
    intro part hpart
    obtain ⟨s, _, rfl⟩ := List.mem_map.1 hpart
    exact SpanTree.nested_leaf s

theorem StatementOn.nested {s : Statement} (hts : InOrder ts) (h : StatementOn ts s) :
    s.tree.Nested := by
  cases h with
  | module _ h hspan => exact h.nested PropertyOn.spans PropertyOn.nested hts hspan
  | require _ h hspan =>
    exact h.nested RequiredTypeOn.spans (fun _ _ => SpanTree.nested_leaf _) hts hspan
  | rule h => exact h.nested hts

theorem Statement.span_tree (s : Statement) : s.tree.span = s.span := by
  cases s with
  | module | require | rule => rfl

theorem PolicyOn.nested {p : Policy} (hts : InOrder ts) (h : PolicyOn ts p) : p.tree.Nested := by
  by_cases hne : p.statements = []
  · rw [Policy.tree, hne]
    exact SpanTree.nested_leaf p.span
  · obtain ⟨body, _, _, _, _, vs, htext, hsemi, hbody, _, _, _, _, hvs, hsuffix⟩ :=
      h.statements.ends hne
    have hspan := h.spans hne
    rw [htext, rdropWhile_semicolons hsemi hsuffix hvs.last] at hspan
    have hstatement {us : List Token} {s : Statement} (hs : StatementOn us s) :
        Spans us s.tree.span := s.span_tree ▸ hs.spans
    exact hbody.nested hstatement StatementOn.nested (hts.of_prefix (htext ▸ List.prefix_append ..))
      hspan (List.Sublist.refl body)

end Nested

/-- Every node of the tree of a text spans its tokens; so nodes lie in the node around them, apart
from each other and in their order. -/
theorem parse_spans {source : String} {l : Lexed} {p : Policy} (hl : lex source = .ok l)
    (hp : parse source = .ok p) : PolicyOn l.tokens p ∧ p.tree.Nested :=
  ⟨policyOn_of_parse hl hp, (policyOn_of_parse hl hp).nested (inOrder_of_lex hl)⟩

/-- Semicolons follow statements and items, a sign and its number stand on two lines, and no name
follows the last comma. -/
def spacedPolicy : String :=
  "module\x7bversion -\n1+2;;\x7d;;require\x7btype a;type b\x7d;deny a * \x7b b , \x7d ; "

theorem parse_spans_spaced : ∃ l p,
    lex spacedPolicy = .ok l ∧ parse spacedPolicy = .ok p ∧
    p.spans.map (fun s => (s.start.offset, s.stop.offset)) =
      [(0, 64), (0, 23), (7, 20), (15, 20), (25, 47), (33, 39), (40, 46), (48, 64), (53, 54),
        (55, 56), (59, 60)] ∧
    PolicyOn l.tokens p ∧ p.tree.Nested := by
  have hspans : (parse spacedPolicy).toOption.map
      (·.spans.map fun s => (s.start.offset, s.stop.offset)) =
      some [(0, 64), (0, 23), (7, 20), (15, 20), (25, 47), (33, 39), (40, 46), (48, 64), (53, 54),
        (55, 56), (59, 60)] := by decide +kernel
  cases hl : lex spacedPolicy with
  | error e =>
    rw [parse, hl] at hspans
    cases hspans
  | ok l =>
    cases hp : parse spacedPolicy with
    | error e =>
      rw [hp] at hspans
      cases hspans
    | ok p =>
      rw [hp] at hspans
      exact ⟨l, p, rfl, rfl, Option.some.inj hspans, parse_spans hl hp⟩

end GuildPolicy.Syntax
