import GuildPolicy.Proofs.Syntax.Expressions
import Mathlib.Data.List.TakeWhile

namespace GuildPolicy.Syntax

open GuildPolicy.Source

variable {eof : Token} {ts us rest rest' semicolons : List Token}

section Blocks

theorem skipSemicolons_append (hsemi : ∀ t ∈ semicolons, t.kind = .semicolon)
    (hrest : ∀ t ∈ rest.head?, t.kind ≠ .semicolon) :
    skipSemicolons (semicolons ++ rest) = rest := by
  rw [skipSemicolons, List.dropWhile_append_of_pos]
  · cases rest with
    | nil => rfl
    | cons t ts =>
      apply List.dropWhile_cons_of_neg
      rw [decide_eq_true_eq]
      exact hrest t rfl
  · intro t ht
    rw [decide_eq_true_eq]
    exact hsemi t ht

theorem eq_append_skipSemicolons (ts : List Token) : ∃ semicolons,
    ts = semicolons ++ skipSemicolons ts ∧ ∀ t ∈ semicolons, t.kind = .semicolon := by
  refine ⟨ts.takeWhile (·.kind = .semicolon), List.takeWhile_append_dropWhile.symm, fun t ht => ?_⟩
  have hkind := List.mem_takeWhile_imp ht
  exact of_decide_eq_true hkind

variable {α β : Type} {item : List Token → Parse α} {IsItem : List Token → β → Prop}
variable {Becomes : β → α → Prop} {Follows : TokenKind → Prop} {first : TokenKind}
variable {shorter : ∀ {ts a rest}, item ts = .ok (a, rest) → rest.length < ts.length}
variable {brace : Token} {as : List α} {bs : List β}

theorem items_brace (hbrace : brace.kind = .braceClose) :
    items eof item shorter (brace :: rest) = .ok (([], brace), rest) := by
  have hnext : isNext .braceClose (brace :: rest) = true := decide_eq_true hbrace
  have hmem : brace.kind ∈ [TokenKind.braceClose] := List.mem_singleton.2 hbrace
  rw [items, if_pos hnext, expect_of_mem hmem]

theorem items_eq_ok_iff (hnext : ¬isNext .braceClose ts = true) :
    items eof item shorter ts = .ok ((as, brace), rest) ↔
      ∃ a mid as', item ts = .ok (a, mid) ∧
        items eof item shorter (skipSemicolons mid) = .ok ((as', brace), rest) ∧ as = a :: as' := by
  rw [items, if_neg hnext]
  constructor
  · intro h
    split at h
    · cases h
    · next a mid hitem =>
      split at h
      · next as' _ _ hitems =>
        cases h
        exact ⟨a, mid, as', hitem, hitems, rfl⟩
      · cases h
  · rintro ⟨a, mid, as', hitem, hitems, rfl⟩
    rw [hitem]
    dsimp only
    rw [hitems]

theorem items_sound (hitem : Reads item IsItem Becomes Follows)
    (h : items eof item shorter ts = .ok ((as, brace), rest)) :
    ∃ us bs, ts = us ++ brace :: rest ∧ IsItems IsItem us bs ∧ brace.kind = .braceClose := by
  fun_induction items eof item shorter ts generalizing as with
  | case1 ts _ brace' rest' he =>
    cases h
    obtain ⟨hts, hkind⟩ := expect_eq_ok_iff.1 he
    exact ⟨[], [], hts, .nil, List.mem_singleton.1 hkind⟩
  | case2 => cases h
  | case3 => cases h
  | case4 ts _ a mid hi as' brace' rest' hs ih =>
    cases h
    obtain ⟨us, bs, hskip, hbs, hkind⟩ := ih hs
    obtain ⟨ts', b, rfl, hb⟩ := hitem.sound hi
    obtain ⟨semicolons, hmid, hsemi⟩ := eq_append_skipSemicolons mid
    rw [hskip] at hmid
    refine ⟨ts' ++ (semicolons ++ us), b :: bs, ?_, .cons hb hsemi hbs, hkind⟩
    rw [hmid, List.append_assoc, List.append_assoc]
  | case5 => cases h

/-- A parser takes the items of a block: each begins with the same kind of token, which sets it
off from the semicolons before it and the brace that closes the block. -/
structure ReadsItem (item : List Token → Parse α) (IsItem : List Token → β → Prop)
    (Becomes : β → α → Prop) (first : TokenKind) : Prop where
  reads : Reads item IsItem Becomes fun k => k ∈ [TokenKind.semicolon, .braceClose, first]
  begins : ∀ {us b}, IsItem us b → ∃ t us', us = t :: us' ∧ t.kind = first
  ne_semicolon : first ≠ .semicolon
  ne_braceClose : first ≠ .braceClose

/-- What follows an item of a block, with or without semicolons, is not part of it. -/
theorem ReadsItem.follows (hitem : ReadsItem item IsItem Becomes first) (rest : List Token)
    (hsemi : ∀ t ∈ semicolons, t.kind = .semicolon) (hbrace : brace.kind = .braceClose)
    (h : IsItems IsItem us bs) : ∀ t ∈ (semicolons ++ (us ++ brace :: rest)).head?,
      t.kind ∈ [TokenKind.semicolon, .braceClose, first] := by
  intro t ht
  cases semicolons with
  | cons t' semicolons =>
    cases ht
    exact hsemi t (List.mem_cons_self ..) ▸ List.mem_cons_self ..
  | nil =>
    apply List.mem_cons_of_mem
    cases h with
    | nil =>
      cases ht
      exact hbrace ▸ List.mem_cons_self ..
    | cons h _ _ =>
      obtain ⟨t', us', rfl, hkind⟩ := hitem.begins h
      cases ht
      exact List.mem_cons_of_mem _ (List.mem_singleton.2 hkind)

theorem ReadsItem.skipSemicolons (hitem : ReadsItem item IsItem Becomes first) (rest : List Token)
    (hsemi : ∀ t ∈ semicolons, t.kind = .semicolon) (hbrace : brace.kind = .braceClose)
    (h : IsItems IsItem us bs) :
    skipSemicolons (semicolons ++ (us ++ brace :: rest)) = us ++ brace :: rest := by
  apply skipSemicolons_append hsemi
  intro t ht hkind
  cases h with
  | nil =>
    cases ht
    exact absurd (hbrace.symm.trans hkind) nofun
  | cons h _ _ =>
    obtain ⟨t', us', rfl, hfirst⟩ := hitem.begins h
    cases ht
    exact hitem.ne_semicolon (hfirst.symm.trans hkind)

theorem items_complete (hitem : ReadsItem item IsItem Becomes first)
    (hbrace : brace.kind = .braceClose) {brace' : Token} (h : IsItems IsItem us bs) :
    items eof item shorter (us ++ brace :: rest) = .ok ((as, brace'), rest') ↔
      List.Forall₂ Becomes bs as ∧ brace' = brace ∧ rest' = rest := by
  induction h generalizing as with
  | nil =>
    rw [List.nil_append, items_brace hbrace]
    constructor
    · intro h
      cases h
      exact ⟨.nil, rfl, rfl⟩
    · rintro ⟨has, rfl, rfl⟩
      cases has
      rfl
  | @cons ts semicolons us b bs hb hs hbs ih =>
    have hskip := hitem.skipSemicolons rest hs hbrace hbs
    have hafter := hitem.follows rest hs hbrace hbs
    have hnext : ¬isNext .braceClose (ts ++ (semicolons ++ us) ++ brace :: rest) = true := by
      obtain ⟨t, ts', rfl, hkind⟩ := hitem.begins hb
      intro hn
      exact hitem.ne_braceClose (hkind.symm.trans (of_decide_eq_true hn))
    rw [items_eq_ok_iff hnext, List.append_assoc, List.append_assoc]
    constructor
    · rintro ⟨a, mid, as', ha, has', rfl⟩
      obtain ⟨hba, rfl⟩ := (hitem.reads.complete hb hafter).1 ha
      rw [hskip] at has'
      obtain ⟨hforall, hrest⟩ := ih.1 has'
      exact ⟨.cons hba hforall, hrest⟩
    · rintro ⟨hforall, hrest⟩
      cases hforall with
      | @cons _ a _ as' hba hforall =>
        refine ⟨a, _, as', (hitem.reads.complete hb hafter).2 ⟨hba, rfl⟩, ?_, rfl⟩
        rw [hskip]
        exact ih.2 ⟨hforall, hrest⟩

theorem block_eq_ok_iff : block eof item shorter ts = .ok ((as, brace), rest) ↔
    ∃ t ts', ts = t :: ts' ∧ t.kind = .braceOpen ∧
      items eof item shorter ts' = .ok ((as, brace), rest) := by
  rw [block]
  constructor
  · intro h
    split at h
    · next t ts' he =>
      obtain ⟨hts, hkind⟩ := expect_eq_ok_iff.1 he
      exact ⟨t, ts', hts, List.mem_singleton.1 hkind, h⟩
    · cases h
  · rintro ⟨t, ts', rfl, hkind, h⟩
    rw [expect_of_mem (List.mem_singleton.2 hkind)]
    exact h

theorem block_sound (hitem : Reads item IsItem Becomes Follows)
    (h : block eof item shorter ts = .ok ((as, brace), rest)) :
    ∃ us bs, ts = us ++ rest ∧ IsBlock IsItem us bs brace := by
  obtain ⟨t, ts', rfl, hopen, hitems⟩ := block_eq_ok_iff.1 h
  obtain ⟨us, bs, rfl, hbs, hclose⟩ := items_sound hitem hitems
  refine ⟨t :: (us ++ [brace]), bs, ?_, .mk hopen hbs hclose⟩
  rw [List.cons_append, List.append_assoc, List.singleton_append]

theorem block_complete (hitem : ReadsItem item IsItem Becomes first) {brace' : Token}
    (h : IsBlock IsItem us bs brace) :
    block eof item shorter (us ++ rest) = .ok ((as, brace'), rest') ↔
      List.Forall₂ Becomes bs as ∧ brace' = brace ∧ rest' = rest := by
  cases h with
  | @mk t _ ts _ hopen h hbrace =>
    rw [List.cons_append, List.append_assoc, List.singleton_append, block_eq_ok_iff,
      ← items_complete hitem hbrace h]
    constructor
    · rintro ⟨t', ts', hts, _, hitems⟩
      cases hts
      exact hitems
    · intro hitems
      exact ⟨t, _, rfl, hopen, hitems⟩

end Blocks

section Items

theorem property_eq_ok_iff {p : Property} : property eof ts = .ok (p, rest) ↔
    ∃ name ts' value, ts = name :: ts' ∧ name.kind = .identifier ∧ name.value ∈ propertyNames ∧
      sum eof ts' = .ok (value, rest) ∧ p = ⟨name.value, value, name.span.to value.span⟩ := by
  rw [property]
  constructor
  · intro h
    split at h
    · cases h
    next name ts' he =>
    obtain ⟨hts, hkind⟩ := expect_eq_ok_iff.1 he
    split at h
    · next hname =>
      split at h
      · next value _ hv =>
        cases h
        exact ⟨name, ts', value, hts, List.mem_singleton.1 hkind, hname, hv, rfl⟩
      · cases h
    · cases h
  · rintro ⟨name, ts', value, rfl, hkind, hname, hv, rfl⟩
    rw [expect_of_mem (List.mem_singleton.2 hkind)]
    dsimp only
    rw [if_pos hname, hv]

def DraftProperty.Becomes (d : DraftProperty) (p : Property) : Prop := d.Named ∧ d.fold = .ok p

theorem DraftProperty.fold_eq_ok_iff {d : DraftProperty} {p : Property} : d.fold = .ok p ↔
    ∃ value, d.value.fold = .ok value ∧
      p = ⟨d.name.value, value, d.name.span.to value.span⟩ := by
  rw [fold]
  constructor
  · intro h
    split at h
    · next value hv =>
      cases h
      exact ⟨value, hv, rfl⟩
    · cases h
  · rintro ⟨value, hv, rfl⟩
    rw [hv]

theorem reads_property (eof : Token) : Reads (property eof) IsProperty DraftProperty.Becomes
    fun k => Operator.ofFactor? k = none ∧ Operator.ofSummand? k = none where
  sound h := by
    obtain ⟨name, ts', value, rfl, hkind, _, hv, _⟩ := property_eq_ok_iff.1 h
    obtain ⟨us, e, rfl, he⟩ := (reads_sum eof).sound hv
    exact ⟨name :: us, _, rfl, .mk hkind he⟩
  complete {us d rest p rest'} h hrest := by
    cases h with
    | @mk name us e hkind he =>
      rw [List.cons_append, property_eq_ok_iff, DraftProperty.Becomes,
        DraftProperty.fold_eq_ok_iff]
      constructor
      · rintro ⟨name', ts', value, hts, _, hname, hv, rfl⟩
        cases hts
        obtain ⟨hfold, rfl⟩ := ((reads_sum eof).complete he hrest).1 hv
        exact ⟨⟨hname, value, hfold, rfl⟩, rfl⟩
      · rintro ⟨⟨hname, value, hfold, rfl⟩, rfl⟩
        have hv := ((reads_sum eof).complete he hrest).2 ⟨hfold, rfl⟩
        exact ⟨name, _, value, rfl, hkind, hname, hv, rfl⟩

theorem requiredType_eq_ok_iff {n : Name} : requiredType eof ts = .ok (n, rest) ↔
    ∃ keyword name, ts = keyword :: name :: rest ∧ keyword.kind = .type ∧
      name.kind = .identifier ∧ n = ⟨name.value, keyword.span.to name.span⟩ := by
  rw [requiredType]
  constructor
  · intro h
    split at h
    · cases h
    next keyword ts' hkey =>
    split at h
    · next name _ hname =>
      cases h
      obtain ⟨rfl, hkind⟩ := expect_eq_ok_iff.1 hkey
      obtain ⟨rfl, hkind'⟩ := expect_eq_ok_iff.1 hname
      exact ⟨keyword, name, rfl, List.mem_singleton.1 hkind, List.mem_singleton.1 hkind', rfl⟩
    · cases h
  · rintro ⟨keyword, name, rfl, hkind, hkind', rfl⟩
    rw [expect_of_mem (List.mem_singleton.2 hkind)]
    dsimp only
    rw [expect_of_mem (List.mem_singleton.2 hkind')]

theorem reads_requiredType (eof : Token) :
    Reads (requiredType eof) IsRequiredType Eq fun _ => True where
  sound h := by
    obtain ⟨keyword, name, rfl, hkey, hname, _⟩ := requiredType_eq_ok_iff.1 h
    exact ⟨[keyword, name], _, rfl, .mk hkey hname⟩
  complete {us n rest n' rest'} h _ := by
    cases h with
    | @mk keyword name hkey hname =>
      rw [requiredType_eq_ok_iff]
      constructor
      · rintro ⟨keyword', name', hts, _, _, rfl⟩
        cases hts
        exact ⟨rfl, rfl⟩
      · rintro ⟨rfl, rfl⟩
        exact ⟨keyword, name, rfl, hkey, hname, rfl⟩

end Items

section Rules

variable {brace : Token} {ns : List Name}

theorem names_sound (h : names ts = (ns, rest)) : ∃ us, ts = us ++ rest ∧ IsNames us ns := by
  fun_induction names ts generalizing ns with
  | case1 =>
    cases h
    exact ⟨[], rfl, .nil⟩
  | case2 t ht =>
    cases h
    exact ⟨[t], rfl, .last ht⟩
  | case3 t ht c ts hc others rest' hnames ih =>
    cases h
    obtain ⟨us, rfl, hus⟩ := ih hnames
    exact ⟨t :: c :: us, rfl, .cons ht hc hus⟩
  | case4 t ht c ts hc =>
    cases h
    exact ⟨[t], rfl, .last ht⟩
  | case5 t ts ht =>
    cases h
    exact ⟨[], rfl, .nil⟩

theorem names_complete (rest : List Token) (h : IsNames us ns) (hbrace : brace.kind = .braceClose) :
    names (us ++ brace :: rest) = (ns, brace :: rest) := by
  have hidentifier : brace.kind ≠ .identifier := by
    rw [hbrace]
    exact nofun
  have hcomma : brace.kind ≠ .comma := by
    rw [hbrace]
    exact nofun
  induction h with
  | nil =>
    rw [List.nil_append, names.eq_def]
    dsimp only
    rw [if_neg hidentifier]
  | last ht => simp only [List.singleton_append, names, if_pos ht, if_neg hcomma]
  | cons ht hc h ih => simp only [List.cons_append, names, if_pos ht, if_pos hc, ih]

theorem rule_eq_ok_iff {r : Rule} : rule eof ts = .ok (r, rest) ↔
    ∃ keyword subject target open' ts' ns close,
      ts = keyword :: subject :: target :: open' :: ts' ∧
      keyword.kind ∈ [TokenKind.allow, .deny] ∧ subject.kind = .identifier ∧
      target.kind ∈ [TokenKind.identifier, .star] ∧ open'.kind = .braceOpen ∧
      names ts' = (ns, close :: rest) ∧ close.kind = .braceClose ∧
      r = ⟨.ofToken keyword.kind, subject.toName, .ofToken target, target.span, ns,
        keyword.span.to close.span⟩ := by
  rw [rule]
  constructor
  · intro h
    split at h
    · cases h
    next keyword _ hkey =>
    split at h
    · cases h
    next subject _ hsubject =>
    split at h
    · cases h
    next target _ htarget =>
    split at h
    · cases h
    next open' ts' hopen =>
    split at h
    next ns ts'' hnames =>
    split at h
    · cases h
    next close _ hclose =>
    cases h
    obtain ⟨rfl, h₁⟩ := expect_eq_ok_iff.1 hkey
    obtain ⟨rfl, h₂⟩ := expect_eq_ok_iff.1 hsubject
    obtain ⟨rfl, h₃⟩ := expect_eq_ok_iff.1 htarget
    obtain ⟨rfl, h₄⟩ := expect_eq_ok_iff.1 hopen
    obtain ⟨rfl, h₅⟩ := expect_eq_ok_iff.1 hclose
    exact ⟨keyword, subject, target, open', ts', ns, close, rfl, h₁, List.mem_singleton.1 h₂, h₃,
      List.mem_singleton.1 h₄, hnames, List.mem_singleton.1 h₅, rfl⟩
  · rintro ⟨keyword, subject, target, open', ts', ns, close, rfl, hkey, hsubject, htarget, hopen,
      hnames, hclose, rfl⟩
    rw [expect_of_mem hkey]
    dsimp only
    rw [expect_of_mem (List.mem_singleton.2 hsubject)]
    dsimp only
    rw [expect_of_mem htarget]
    dsimp only
    rw [expect_of_mem (List.mem_singleton.2 hopen)]
    dsimp only
    rw [hnames]
    dsimp only
    rw [expect_of_mem (List.mem_singleton.2 hclose)]

theorem reads_rule (eof : Token) : Reads (rule eof) IsRule Eq fun _ => True where
  sound h := by
    obtain ⟨keyword, subject, target, open', ts', ns, close, rfl, hkey, hsubject, htarget, hopen,
      hnames, hclose, _⟩ := rule_eq_ok_iff.1 h
    obtain ⟨us, rfl, hus⟩ := names_sound hnames
    refine ⟨_, _, ?_, .mk hkey hsubject htarget hopen hus hclose⟩
    simp only [List.cons_append, List.append_assoc, List.nil_append]
  complete {us r rest r' rest'} h _ := by
    cases h with
    | @mk keyword subject target brace brace' ts ns hkey hsubject htarget hopen h hclose =>
      have hnames := names_complete rest h hclose
      simp only [List.cons_append, List.append_assoc, List.nil_append]
      rw [rule_eq_ok_iff]
      constructor
      · rintro ⟨_, _, _, _, _, _, _, hts, _, _, _, _, hnames', _, rfl⟩
        cases hts
        rw [hnames] at hnames'
        cases hnames'
        exact ⟨rfl, rfl⟩
      · rintro ⟨rfl, rfl⟩
        exact ⟨keyword, subject, target, brace, _, ns, brace', rfl, hkey, hsubject, htarget, hopen,
          hnames, hclose, rfl⟩

end Rules

section Statements

variable {seen : Bool}

theorem moduleBlock_eq_ok_iff {b : ModuleBlock} : moduleBlock eof seen ts = .ok (b, rest) ↔
    ∃ keyword ts' ps brace, ts = keyword :: ts' ∧ keyword.kind = .module ∧ seen = false ∧
      block eof (property eof) length_lt_of_property ts' = .ok ((ps, brace), rest) ∧
      b = ⟨ps, keyword.span.to brace.span⟩ := by
  rw [moduleBlock]
  constructor
  · intro h
    split at h
    · cases h
    next keyword ts' hkey =>
    split at h
    · cases h
    next hseen =>
    split at h
    · next ps brace _ hblock =>
      cases h
      obtain ⟨hts, hkind⟩ := expect_eq_ok_iff.1 hkey
      exact ⟨keyword, ts', ps, brace, hts, List.mem_singleton.1 hkind,
        Bool.not_eq_true _ ▸ hseen, hblock, rfl⟩
    · cases h
  · rintro ⟨keyword, ts', ps, brace, rfl, hkind, rfl, hblock, rfl⟩
    rw [expect_of_mem (List.mem_singleton.2 hkind)]
    dsimp only
    rw [if_neg Bool.false_ne_true, hblock]

theorem requireBlock_eq_ok_iff {b : RequireBlock} : requireBlock eof ts = .ok (b, rest) ↔
    ∃ keyword ts' ns brace, ts = keyword :: ts' ∧ keyword.kind = .require ∧
      block eof (requiredType eof) length_lt_of_requiredType ts' = .ok ((ns, brace), rest) ∧
      b = ⟨ns, keyword.span.to brace.span⟩ := by
  rw [requireBlock]
  constructor
  · intro h
    split at h
    · cases h
    next keyword ts' hkey =>
    split at h
    · next ns brace _ hblock =>
      cases h
      obtain ⟨hts, hkind⟩ := expect_eq_ok_iff.1 hkey
      exact ⟨keyword, ts', ns, brace, hts, List.mem_singleton.1 hkind, hblock, rfl⟩
    · cases h
  · rintro ⟨keyword, ts', ns, brace, rfl, hkind, hblock, rfl⟩
    rw [expect_of_mem (List.mem_singleton.2 hkind)]
    dsimp only
    rw [hblock]

theorem IsProperty.first {d : DraftProperty} (h : IsProperty us d) :
    ∃ t us', us = t :: us' ∧ t.kind = .identifier := by
  obtain ⟨hkind, _⟩ := h
  exact ⟨_, _, rfl, hkind⟩

theorem IsRequiredType.first {n : Name} (h : IsRequiredType us n) :
    ∃ t us', us = t :: us' ∧ t.kind = .type := by
  obtain ⟨hkind, _⟩ := h
  exact ⟨_, _, rfl, hkind⟩

theorem IsRule.first {r : Rule} (h : IsRule us r) :
    ∃ t us', us = t :: us' ∧ t.kind ∈ [TokenKind.allow, .deny] := by
  obtain ⟨hkind, _⟩ := h
  exact ⟨_, _, rfl, hkind⟩

theorem readsItem_property (eof : Token) :
    ReadsItem (property eof) IsProperty DraftProperty.Becomes .identifier where
  reads := (reads_property eof).weaken (by decide)
  begins := IsProperty.first
  ne_semicolon := nofun
  ne_braceClose := nofun

theorem readsItem_requiredType (eof : Token) :
    ReadsItem (requiredType eof) IsRequiredType Eq .type where
  reads := (reads_requiredType eof).weaken fun _ _ => trivial
  begins := IsRequiredType.first
  ne_semicolon := nofun
  ne_braceClose := nofun

theorem properties_complete (eof : Token) {brace brace' : Token} {ds : List DraftProperty}
    {ps : List Property} (h : IsBlock IsProperty us ds brace) :
    block eof (property eof) length_lt_of_property (us ++ rest) = .ok ((ps, brace'), rest') ↔
      List.Forall₂ DraftProperty.Becomes ds ps ∧ brace' = brace ∧ rest' = rest :=
  block_complete (readsItem_property eof) h

theorem requiredTypes_complete (eof : Token) {brace brace' : Token} {ns ns' : List Name}
    (h : IsBlock IsRequiredType us ns brace) :
    block eof (requiredType eof) length_lt_of_requiredType (us ++ rest) =
        .ok ((ns', brace'), rest') ↔
      ns = ns' ∧ brace' = brace ∧ rest' = rest := by
  have hb : block eof (requiredType eof) length_lt_of_requiredType (us ++ rest) =
        .ok ((ns', brace'), rest') ↔
      List.Forall₂ Eq ns ns' ∧ brace' = brace ∧ rest' = rest :=
    block_complete (readsItem_requiredType eof) h
  rwa [List.forall₂_eq_eq_eq] at hb

theorem map_first_eq_ok_iff {α β : Type} {x : Parse α} {f : α → β} {b : β} :
    Prod.map f id <$> x = .ok (b, rest) ↔ ∃ a, x = .ok (a, rest) ∧ b = f a := by
  rw [map_eq_ok_iff]
  constructor
  · rintro ⟨⟨a, rest'⟩, hx, h⟩
    cases h
    exact ⟨a, hx, rfl⟩
  · rintro ⟨a, hx, rfl⟩
    exact ⟨(a, rest), hx, rfl⟩

variable {keyword : Token} {s : Statement}

theorem statement_of_rule (hkey : keyword.kind ∈ [TokenKind.allow, .deny]) :
    statement eof seen (keyword :: ts) =
      Prod.map Statement.rule id <$> rule eof (keyword :: ts) := by
  rcases List.mem_cons.1 hkey with hkind | hkey
  · simp only [statement, List.headD_cons, hkind]
    cases rule eof (keyword :: ts) with
    | error e => rfl
    | ok x => rfl
  · have hkind := List.mem_singleton.1 hkey
    simp only [statement, List.headD_cons, hkind]
    cases rule eof (keyword :: ts) with
    | error e => rfl
    | ok x => rfl

theorem statement_of_module (hkey : keyword.kind = .module) :
    statement eof seen (keyword :: ts) =
      Prod.map Statement.module id <$> moduleBlock eof seen (keyword :: ts) := by
  simp only [statement, List.headD_cons, hkey]
  cases moduleBlock eof seen (keyword :: ts) with
  | error e => rfl
  | ok x => rfl

theorem statement_of_require (hkey : keyword.kind = .require) :
    statement eof seen (keyword :: ts) =
      Prod.map Statement.require id <$> requireBlock eof (keyword :: ts) := by
  simp only [statement, List.headD_cons, hkey]
  cases requireBlock eof (keyword :: ts) with
  | error e => rfl
  | ok x => rfl

theorem statement_cases (h : statement eof seen ts = .ok (s, rest)) :
    ∃ keyword ts', ts = keyword :: ts' ∧
      (keyword.kind ∈ [TokenKind.allow, .deny] ∨ keyword.kind = .module ∨
        keyword.kind = .require) := by
  cases ts with
  | nil => exact absurd (length_lt_of_statement h) (Nat.not_lt_zero _)
  | cons keyword ts' =>
    refine ⟨keyword, ts', rfl, ?_⟩
    simp only [statement, List.headD_cons] at h
    split at h
    · next hkind => exact .inl (hkind ▸ List.mem_cons_self ..)
    · next hkind => exact .inl (List.mem_cons_of_mem _ (List.mem_singleton.2 hkind))
    · next hkind => exact .inr (.inl hkind)
    · next hkind => exact .inr (.inr hkind)
    · cases h

/-- What becomes of a draft that the parser lets pass. -/
structure DraftStatement.Passes (seen : Bool) (d : DraftStatement) (s : Statement) : Prop where
  once : d.isModule → seen = false
  named : ∀ p ∈ d.properties, p.Named
  becomes : d.Becomes s

theorem forall₂_becomes_iff {ds : List DraftProperty} {ps : List Property} :
    List.Forall₂ DraftProperty.Becomes ds ps ↔
      (∀ d ∈ ds, d.Named) ∧ List.Forall₂ (fun d p => d.fold = .ok p) ds ps :=
  List.forall₂_and_left ds ps

theorem statement_sound (h : statement eof seen ts = .ok (s, rest)) :
    ∃ us d, ts = us ++ rest ∧ IsStatement us d := by
  obtain ⟨keyword, ts', rfl, hkey | hkey | hkey⟩ := statement_cases h
  · rw [statement_of_rule hkey, map_first_eq_ok_iff] at h
    obtain ⟨r, hr, _⟩ := h
    obtain ⟨us, r', hus, hr'⟩ := (reads_rule eof).sound hr
    exact ⟨us, _, hus, .rule hr'⟩
  · rw [statement_of_module hkey, map_first_eq_ok_iff] at h
    obtain ⟨b, hb, _⟩ := h
    obtain ⟨_, _, ps, brace, hts, _, _, hblock, _⟩ := moduleBlock_eq_ok_iff.1 hb
    cases hts
    obtain ⟨us, ds, rfl, hus⟩ := block_sound (reads_property eof) hblock
    exact ⟨keyword :: us, _, rfl, .module hkey hus⟩
  · rw [statement_of_require hkey, map_first_eq_ok_iff] at h
    obtain ⟨b, hb, _⟩ := h
    obtain ⟨_, _, ns, brace, hts, _, hblock, _⟩ := requireBlock_eq_ok_iff.1 hb
    cases hts
    obtain ⟨us, ns', rfl, hus⟩ := block_sound (reads_requiredType eof) hblock
    exact ⟨keyword :: us, _, rfl, .require hkey hus⟩

theorem reads_statement (eof : Token) (seen : Bool) :
    Reads (statement eof seen) IsStatement (DraftStatement.Passes seen) fun _ => True where
  sound := statement_sound
  complete {us d rest s rest'} h _ := by
    cases h with
    | @module keyword brace ts ds hkey h =>
      rw [List.cons_append, statement_of_module hkey, map_first_eq_ok_iff]
      constructor
      · rintro ⟨b, hb, rfl⟩
        obtain ⟨_, _, ps, brace', hts, _, hseen, hblock, rfl⟩ := moduleBlock_eq_ok_iff.1 hb
        cases hts
        obtain ⟨hps, rfl, hrest⟩ := (properties_complete eof h).1 hblock
        obtain ⟨hnamed, hfold⟩ := forall₂_becomes_iff.1 hps
        exact ⟨⟨fun _ => hseen, hnamed, .module hfold⟩, hrest⟩
      · rintro ⟨⟨hseen, hnamed, hbecomes⟩, hrest⟩
        cases hbecomes with
        | @module _ _ _ ps hfold =>
          have hps := forall₂_becomes_iff.2 ⟨hnamed, hfold⟩
          have hblock := (properties_complete eof h).2 ⟨hps, rfl, hrest⟩
          exact ⟨_, moduleBlock_eq_ok_iff.2 ⟨keyword, _, ps, brace, rfl, hkey, hseen rfl, hblock,
            rfl⟩, rfl⟩
    | @require keyword brace ts ns hkey h =>
      rw [List.cons_append, statement_of_require hkey, map_first_eq_ok_iff]
      constructor
      · rintro ⟨b, hb, rfl⟩
        obtain ⟨_, _, ns', brace', hts, _, hblock, rfl⟩ := requireBlock_eq_ok_iff.1 hb
        cases hts
        obtain ⟨rfl, rfl, hrest⟩ := (requiredTypes_complete eof h).1 hblock
        exact ⟨⟨nofun, nofun, .require _⟩, hrest⟩
      · rintro ⟨⟨_, _, hbecomes⟩, hrest⟩
        cases hbecomes
        have hblock := (requiredTypes_complete eof h).2 ⟨rfl, rfl, hrest⟩
        exact ⟨_, requireBlock_eq_ok_iff.2 ⟨keyword, _, ns, brace, rfl, hkey, hblock, rfl⟩, rfl⟩
    | @rule ts r h =>
      obtain ⟨keyword, ts', rfl, hkey⟩ := h.first
      have hreads {r' : Rule} : rule eof (keyword :: ts' ++ rest) = .ok (r', rest') ↔
          r = r' ∧ rest' = rest := (reads_rule eof).complete h fun _ _ => trivial
      rw [List.cons_append] at hreads ⊢
      rw [statement_of_rule hkey, map_first_eq_ok_iff]
      constructor
      · rintro ⟨r', hr', rfl⟩
        obtain ⟨rfl, hrest⟩ := hreads.1 hr'
        exact ⟨⟨nofun, nofun, .rule r⟩, hrest⟩
      · rintro ⟨⟨_, _, hbecomes⟩, hrest⟩
        cases hbecomes
        exact ⟨r, hreads.2 ⟨rfl, hrest⟩, rfl⟩

theorem IsStatement.first {d : DraftStatement} (h : IsStatement us d) :
    ∃ t us', us = t :: us' ∧ t.kind ≠ .semicolon := by
  cases h with
  | module hkey h => exact ⟨_, _, rfl, by rw [hkey]; exact nofun⟩
  | require hkey h => exact ⟨_, _, rfl, by rw [hkey]; exact nofun⟩
  | rule h =>
    obtain ⟨keyword, us', rfl, hkey⟩ := h.first
    refine ⟨keyword, us', rfl, fun hkind => ?_⟩
    rw [hkind] at hkey
    exact absurd hkey (by decide)

theorem DraftStatement.Becomes.isModule {d : DraftStatement} (h : d.Becomes s) :
    s.isModule = d.isModule := by
  cases h with
  | module | require | rule => rfl

variable {ss : List Statement} {drafts : List DraftStatement}

theorem statements_cons_eq_ok_iff {t : Token} :
    statements eof seen (t :: ts) = .ok ss ↔
      ∃ s rest others, statement eof seen (t :: ts) = .ok (s, rest) ∧
        statements eof (seen || s.isModule) (skipSemicolons rest) = .ok others ∧
        ss = s :: others := by
  rw [statements]
  constructor
  · intro h
    split at h
    · cases h
    next s rest hs =>
    split at h
    · next others hothers =>
      cases h
      exact ⟨s, rest, others, hs, hothers, rfl⟩
    · cases h
  · rintro ⟨s, rest, others, hs, hothers, rfl⟩
    rw [hs]
    dsimp only
    rw [hothers]

theorem statements_sound (h : statements eof seen ts = .ok ss) :
    ∃ drafts, IsPolicy ts drafts := by
  fun_induction statements eof seen ts generalizing ss with
  | case1 => exact ⟨[], .nil⟩
  | case2 => cases h
  | case3 seen t ts s rest hs others hothers ih =>
    obtain ⟨drafts, hdrafts⟩ := ih hothers
    obtain ⟨us, d, hus, hd⟩ := statement_sound hs
    obtain ⟨semicolons, hrest, hsemi⟩ := eq_append_skipSemicolons rest
    rw [hus, hrest]
    exact ⟨d :: drafts, .cons hd hsemi hdrafts⟩
  | case4 => cases h

theorem once_cons_iff {n : Nat} {isModule : Bool} :
    (isModule = true → seen = false) ∧ n + (seen || isModule).toNat ≤ 1 ↔
      n + (if isModule = true then 1 else 0) + seen.toNat ≤ 1 := by
  cases isModule with
  | false => simp
  | true =>
    cases seen with
    | false => simp
    | true => simp

theorem statements_complete (h : IsPolicy us drafts) :
    statements eof seen us = .ok ss ↔ drafts.countP DraftStatement.isModule + seen.toNat ≤ 1 ∧
      (∀ d ∈ drafts, ∀ p ∈ d.properties, p.Named) ∧
      List.Forall₂ DraftStatement.Becomes drafts ss := by
  -- A module block that was seen counts like one that is still to come.
  induction h generalizing seen ss with
  | nil =>
    rw [statements]
    constructor
    · intro h
      cases h
      have hcount : List.countP DraftStatement.isModule [] + seen.toNat ≤ 1 := by
        rw [List.countP_nil, Nat.zero_add]
        exact seen.toNat_le
      exact ⟨hcount, List.forall_mem_nil _, .nil⟩
    · rintro ⟨_, _, h⟩
      cases h
      rfl
  | @cons ts semicolons us d ds hd hsemi hds ih =>
    have hskip : skipSemicolons (semicolons ++ us) = us := by
      apply skipSemicolons_append hsemi
      cases hds with
      | nil =>
        intro t ht
        cases ht
      | cons hd' _ _ =>
        obtain ⟨t, us', rfl, hkind⟩ := hd'.first
        intro t' ht'
        cases ht'
        exact hkind
    have hreads {s : Statement} {mid : List Token} :
        statement eof seen (ts ++ (semicolons ++ us)) = .ok (s, mid) ↔
          d.Passes seen s ∧ mid = semicolons ++ us :=
      (reads_statement eof seen).complete hd fun _ _ => trivial
    obtain ⟨t, ts', hts, _⟩ := hd.first
    rw [hts, List.cons_append] at hreads ⊢
    rw [statements_cons_eq_ok_iff, List.countP_cons, ← once_cons_iff, List.forall_mem_cons]
    constructor
    · rintro ⟨s, mid, others, hs, hothers, rfl⟩
      obtain ⟨⟨honce, hnamed, hbecomes⟩, rfl⟩ := hreads.1 hs
      rw [hskip, ih, hbecomes.isModule] at hothers
      obtain ⟨hcount, hnamed', hforall⟩ := hothers
      exact ⟨⟨honce, hcount⟩, ⟨hnamed, hnamed'⟩, .cons hbecomes hforall⟩
    · rintro ⟨⟨honce, hcount⟩, ⟨hnamed, hnamed'⟩, hforall⟩
      cases hforall with
      | @cons _ s _ others hbecomes hforall =>
        refine ⟨s, _, others, hreads.2 ⟨⟨honce, hnamed, hbecomes⟩, rfl⟩, ?_, rfl⟩
        rw [hskip, ih, hbecomes.isModule]
        exact ⟨hcount, hnamed', hforall⟩

end Statements

section Policies

theorem exists_forall₂_iff {α β : Type} {R : α → β → Prop} {as : List α} :
    (∃ bs, List.Forall₂ R as bs) ↔ ∀ a ∈ as, ∃ b, R a b := by
  induction as with
  | nil => exact ⟨fun _ => nofun, fun _ => ⟨[], .nil⟩⟩
  | cons a as ih =>
    rw [List.forall_mem_cons, ← ih]
    constructor
    · rintro ⟨_, h⟩
      cases h with
      | @cons _ b _ bs hb hbs => exact ⟨⟨b, hb⟩, bs, hbs⟩
    · rintro ⟨⟨b, hb⟩, bs, hbs⟩
      exact ⟨b :: bs, .cons hb hbs⟩

theorem DraftProperty.exists_fold_iff {d : DraftProperty} :
    (∃ p, d.fold = .ok p) ↔ ∃ value, d.value.fold = .ok value := by
  constructor
  · rintro ⟨p, hp⟩
    obtain ⟨value, hv, _⟩ := fold_eq_ok_iff.1 hp
    exact ⟨value, hv⟩
  · rintro ⟨value, hv⟩
    exact ⟨_, fold_eq_ok_iff.2 ⟨value, hv, rfl⟩⟩

/-- Only an expression that cannot be carried out keeps a draft from becoming a statement. -/
theorem DraftStatement.exists_becomes_iff {d : DraftStatement} :
    (∃ s, d.Becomes s) ↔ ∀ p ∈ d.properties, ∃ value, p.value.fold = .ok value := by
  cases d with
  | require block => exact ⟨fun _ => nofun, fun _ => ⟨_, .require block⟩⟩
  | rule r => exact ⟨fun _ => nofun, fun _ => ⟨_, .rule r⟩⟩
  | module keyword properties brace =>
    have hforall : (∀ p ∈ properties, ∃ value, p.value.fold = .ok value) ↔
        ∃ ps, List.Forall₂ (fun d p => DraftProperty.fold d = .ok p) properties ps := by
      rw [exists_forall₂_iff]
      exact forall₂_congr fun p _ => DraftProperty.exists_fold_iff.symm
    rw [DraftStatement.properties, hforall]
    constructor
    · rintro ⟨_, h⟩
      cases h with
      | module h => exact ⟨_, h⟩
    · rintro ⟨ps, h⟩
      exact ⟨_, .module h⟩

theorem Lexed.parse_eq_ok_iff {l : Lexed} {policy : Policy} : l.parse = .ok policy ↔
    statements (.endOfFile l.stop) false l.tokens = .ok policy.statements ∧
      policy.span = statementsSpan policy.statements := by
  rw [parse]
  constructor
  · intro h
    split at h
    · next ss hss =>
      cases h
      exact ⟨hss, rfl⟩
    · cases h
  · rintro ⟨hss, hspan⟩
    rw [hss]
    dsimp only
    rw [← hspan]

/-- A text is parsed exactly if its tokens make a policy that is acceptable, and into what this
policy becomes, statement by statement. -/
theorem Lexed.parse_exact (l : Lexed) :
    ((∃ policy, l.parse = .ok policy) ↔
      ∃ drafts, IsPolicy l.tokens drafts ∧ DraftStatement.Acceptable drafts) ∧
    ∀ drafts, IsPolicy l.tokens drafts → ∀ policy, l.parse = .ok policy ↔
      DraftStatement.Acceptable drafts ∧
      List.Forall₂ DraftStatement.Becomes drafts policy.statements ∧
        policy.span = statementsSpan policy.statements := by
  have hexact (drafts : List DraftStatement) (h : IsPolicy l.tokens drafts) (policy : Policy) :
      l.parse = .ok policy ↔
        DraftStatement.Acceptable drafts ∧
        List.Forall₂ DraftStatement.Becomes drafts policy.statements ∧
          policy.span = statementsSpan policy.statements := by
    rw [parse_eq_ok_iff, statements_complete h]
    constructor
    · rintro ⟨⟨hcount, hnamed, hforall⟩, hspan⟩
      have hfolds : ∀ d ∈ drafts, ∃ s, d.Becomes s := exists_forall₂_iff.1 ⟨_, hforall⟩
      exact ⟨⟨hcount, hnamed, fun d hd => DraftStatement.exists_becomes_iff.1 (hfolds d hd)⟩,
        hforall, hspan⟩
    · rintro ⟨⟨hcount, hnamed, _⟩, hforall, hspan⟩
      exact ⟨⟨hcount, hnamed, hforall⟩, hspan⟩
  refine ⟨⟨?_, ?_⟩, hexact⟩
  · rintro ⟨policy, h⟩
    obtain ⟨drafts, hdrafts⟩ := statements_sound (parse_eq_ok_iff.1 h).1
    exact ⟨drafts, hdrafts, ((hexact drafts hdrafts policy).1 h).1⟩
  · rintro ⟨drafts, hdrafts, hacceptable⟩
    have hfolds : ∀ d ∈ drafts, ∃ s, d.Becomes s := fun d hd =>
      DraftStatement.exists_becomes_iff.2 (hacceptable.folds d hd)
    obtain ⟨ss, hss⟩ := exists_forall₂_iff.2 hfolds
    exact ⟨⟨ss, statementsSpan ss⟩, (hexact drafts hdrafts _).2 ⟨hacceptable, hss, rfl⟩⟩

/-- A token that stands nowhere. -/
def loose (kind : TokenKind) (value : String) : Token := ⟨kind, value, .point .origin⟩

/-- The tokens of a version that is one less minus two times three. -/
def computedVersion : List Token :=
  [loose .identifier "version", loose .integer "1", loose .minus "-", loose .minus "-",
    loose .integer "2", loose .star "*", loose .integer "3"]

def computedVersionDraft : DraftProperty where
  name := loose .identifier "version"
  value := .operation .subtract (.literal ⟨.integer, "1", .point .origin⟩)
    (.operation .multiply
      (.negation (loose .minus "-") (.literal ⟨.integer, "2", .point .origin⟩))
      (.literal ⟨.integer, "3", .point .origin⟩))

theorem isProperty_computedVersion : IsProperty computedVersion computedVersionDraft := by
  have hone : IsSum [loose .integer "1"] (.literal ⟨.integer, "1", .point .origin⟩) :=
    .operand (.operand (.literal (by decide)))
  have htwo : IsUnary [loose .minus "-", loose .integer "2"]
      (.negation (loose .minus "-") (.literal ⟨.integer, "2", .point .origin⟩)) :=
    .minus rfl (.literal (by decide))
  have hthree : IsUnary [loose .integer "3"] (.literal ⟨.integer, "3", .point .origin⟩) :=
    .literal (by decide)
  have hproduct : IsProduct ([loose .minus "-", loose .integer "2"] ++
      loose .star "*" :: [loose .integer "3"]) _ := .operation (.operand htwo) rfl hthree
  have hsum : IsSum ([loose .integer "1"] ++ loose .minus "-" :: _) _ :=
    hone.operation rfl hproduct
  exact .mk rfl hsum

def versionBlock : List Token :=
  loose .module "module" :: loose .braceOpen "\x7b" ::
    (computedVersion ++ [loose .semicolon ";", loose .braceClose "\x7d"])

def versionBlockDraft : DraftStatement :=
  .module (loose .module "module") [computedVersionDraft] (loose .braceClose "\x7d")

theorem isStatement_versionBlock : IsStatement versionBlock versionBlockDraft := by
  have hitems : IsItems IsProperty (computedVersion ++ ([loose .semicolon ";"] ++ []))
      [computedVersionDraft] := .cons isProperty_computedVersion (by decide) .nil
  have hblock : IsBlock IsProperty (loose .braceOpen "\x7b" ::
      ((computedVersion ++ ([loose .semicolon ";"] ++ [])) ++ [loose .braceClose "\x7d"]))
      [computedVersionDraft] (loose .braceClose "\x7d") := .mk rfl hitems rfl
  exact .module rfl hblock

/-- One such block is parsed, and the version in it is seven. Two of them make a policy, too, but
none that is acceptable. -/
theorem parse_exact_version :
    Lexed.parse ⟨versionBlock, .origin⟩ = .ok ⟨[.module ⟨[⟨"version",
      ⟨.integer, "7", .point .origin⟩, .point .origin⟩], .point .origin⟩], .point .origin⟩ ∧
    IsPolicy (versionBlock ++ versionBlock) [versionBlockDraft, versionBlockDraft] ∧
    ¬∃ policy, Lexed.parse ⟨versionBlock ++ versionBlock, .origin⟩ = .ok policy := by
  have hone : IsPolicy versionBlock [versionBlockDraft] := by
    have h : IsPolicy (versionBlock ++ ([] ++ [])) [versionBlockDraft] :=
      .cons isStatement_versionBlock nofun .nil
    rwa [List.append_nil, List.append_nil] at h
  have htwo : IsPolicy (versionBlock ++ versionBlock) [versionBlockDraft, versionBlockDraft] := by
    have h : IsPolicy (versionBlock ++ ([] ++ versionBlock)) _ :=
      .cons isStatement_versionBlock nofun hone
    rwa [List.nil_append] at h
  refine ⟨?_, htwo, ?_⟩
  · rw [(Lexed.parse_exact ⟨versionBlock, .origin⟩).2 _ hone]
    have hfold : computedVersionDraft.fold =
        .ok ⟨"version", ⟨.integer, "7", .point .origin⟩, .point .origin⟩ := rfl
    refine ⟨⟨by decide, ?_, ?_⟩, .cons (.module (.cons hfold .nil)) .nil, rfl⟩
    · decide
    · intro d hd
      rw [List.mem_singleton.1 hd]
      exact DraftStatement.exists_becomes_iff.1 ⟨_, .module (.cons hfold .nil)⟩
  · rintro ⟨policy, h⟩
    have hacceptable := (((Lexed.parse_exact ⟨_, .origin⟩).2 _ htwo policy).1 h).1
    exact absurd hacceptable.once (by decide)

end Policies

end GuildPolicy.Syntax
