import GuildPolicy.Proofs.Syntax.Lexemes
import Mathlib.Data.List.TakeWhile

namespace GuildPolicy.Syntax

open GuildPolicy.Source GuildPolicy.Text

variable {c d e quote : Char} {cs taken rest value interior spelling blanks : List Char}
variable {kind : TokenKind} {word : String} {ps : List Piece}

section Characters

theorem ofMark?_eq_some_iff : TokenKind.ofMark? c = some kind ↔ (c, kind) ∈ marks := by
  constructor
  · intro h
    unfold TokenKind.ofMark? at h
    split at h
    case h_10 => cases h
    all_goals
      cases h
      decide
  · intro h
    have hall : ∀ m ∈ marks, TokenKind.ofMark? m.1 = some m.2 := by decide
    exact hall _ h

theorem unescape?_eq_some_iff : unescape? e = some c ↔ (e, c) ∈ escapes := by
  constructor
  · intro h
    unfold unescape? at h
    split at h
    case h_9 => cases h
    all_goals
      cases h
      decide
  · intro h
    have hall : ∀ x ∈ escapes, unescape? x.1 = some x.2 := by decide
    exact hall _ h

theorem ofMark?_eq_none
    (h : (c = '"' ∨ c = '\'') ∨ c.isDigit = true ∨ beginsWord c = true) :
    TokenKind.ofMark? c = none := by
  cases hm : TokenKind.ofMark? c with
  | none => rfl
  | some kind =>
    have hall : ∀ m ∈ marks, ¬((m.1 = '"' ∨ m.1 = '\'') ∨ m.1.isDigit = true ∨
        beginsWord m.1 = true) := by decide
    exact absurd h (hall _ (ofMark?_eq_some_iff.1 hm))

theorem not_quote (h : c.isDigit = true ∨ beginsWord c = true) : ¬(c = '"' ∨ c = '\'') := by
  rintro (rfl | rfl)
  · exact absurd h (by decide)
  · exact absurd h (by decide)

theorem toNat_of_isDigit (h : c.isDigit = true) : 48 ≤ c.toNat ∧ c.toNat ≤ 57 := by
  rw [Char.isDigit, Bool.and_eq_true, decide_eq_true_eq, decide_eq_true_eq] at h
  exact h

theorem toNat_of_isAlpha (h : c.isAlpha = true) : 65 ≤ c.toNat ∧ c.toNat ≤ 122 := by
  change (decide (c.val ≥ 65 ∧ c.val ≤ 90) ||
    decide (c.val ≥ 97) && decide (c.val ≤ 122)) = true at h
  simp only [Bool.or_eq_true, Bool.and_eq_true, decide_eq_true_eq, ge_iff_le,
    UInt32.le_iff_toNat_le] at h
  change (65 ≤ c.toNat ∧ c.toNat ≤ 90) ∨ (97 ≤ c.toNat ∧ c.toNat ≤ 122) at h
  omega

theorem toNat_of_beginsWord (h : beginsWord c = true) :
    (65 ≤ c.toNat ∧ c.toNat ≤ 122) ∨ c = '$' := by
  simp only [beginsWord, Bool.or_eq_true, decide_eq_true_eq] at h
  rcases h with (h | rfl) | rfl
  · exact .inl (toNat_of_isAlpha h)
  · exact .inl (by decide)
  · exact .inr rfl

theorem not_isDigit_of_beginsWord (h : beginsWord c = true) : ¬c.isDigit = true := by
  intro hd
  have hd := toNat_of_isDigit hd
  rcases toNat_of_beginsWord h with h | rfl
  · omega
  · exact absurd hd (by decide)

theorem isBlank_eq_false (hlo : 0x21 ≤ c.toNat) (hhi : c.toNat ≤ 0x84) : isBlank c = false := by
  simp only [isBlank, CodeRanges.contains, blankRanges, List.any_cons, List.any_nil,
    Bool.or_false, Bool.or_eq_false_iff, Bool.and_eq_false_iff, decide_eq_false_iff_not]
  omega

theorem takeWhile_dropWhile_append {p : Char → Bool} (hcs : ∀ d ∈ cs, p d = true)
    (hrest : ∀ d ∈ rest.head?, p d = false) :
    (cs ++ rest).takeWhile p = cs ∧ (cs ++ rest).dropWhile p = rest := by
  rw [List.takeWhile_append_of_pos hcs, List.dropWhile_append_of_pos hcs]
  cases rest with
  | nil => exact ⟨List.append_nil cs, rfl⟩
  | cons d rest =>
    have hd : ¬p d = true := by
      rw [hrest d rfl]
      exact nofun
    rw [List.takeWhile_cons_of_neg hd, List.dropWhile_cons_of_neg hd, List.append_nil]
    exact ⟨rfl, rfl⟩

end Characters

section Lexemes

theorem ofWord_of_notMem (h : word ∉ TokenKind.keywords.map Prod.fst) :
    TokenKind.ofWord word = .identifier := by
  have hnone : TokenKind.keywords.lookup word = none := by
    rw [List.lookup_eq_none_iff]
    intro k hk
    rw [bne_iff_ne]
    intro he
    exact h (List.mem_map.2 ⟨k, hk, he.symm⟩)
  rw [TokenKind.ofWord, hnone]
  rfl

theorem ofWord_of_mem (h : (word, kind) ∈ TokenKind.keywords) : TokenKind.ofWord word = kind := by
  have hall : ∀ k ∈ TokenKind.keywords, TokenKind.ofWord k.1 = k.2 := by decide
  exact hall _ h

theorem keyword_spelling (h : (word, kind) ∈ TokenKind.keywords) :
    ∃ c cs, word.toList = c :: cs ∧ beginsWord c = true ∧ ∀ d ∈ cs, continuesWord d = true := by
  have hall : ∀ k ∈ TokenKind.keywords, k.1.toList ≠ [] ∧
      k.1.toList.head?.all beginsWord = true ∧
      k.1.toList.all continuesWord = true := by decide
  obtain ⟨hne, hfirst, hrest⟩ := hall _ h
  rw [List.all_eq_true] at hrest
  cases hw : word.toList with
  | nil => exact absurd hw hne
  | cons c cs =>
    rw [hw] at hfirst hrest
    exact ⟨c, cs, rfl, hfirst, fun d hd => hrest d (List.mem_cons_of_mem c hd)⟩

theorem isLexeme_word (hc : beginsWord c = true) (hcs : ∀ d ∈ cs, continuesWord d = true) :
    IsLexeme (.ofWord (String.ofList (c :: cs))) (String.ofList (c :: cs)) (c :: cs) := by
  by_cases hkey : String.ofList (c :: cs) ∈ TokenKind.keywords.map Prod.fst
  · obtain ⟨⟨word, kind⟩, hk, hword⟩ := List.mem_map.1 hkey
    obtain rfl : word = _ := hword
    have hlexeme := IsLexeme.keyword hk
    rw [String.toList_ofList] at hlexeme
    rw [ofWord_of_mem hk]
    exact hlexeme
  · rw [ofWord_of_notMem hkey]
    exact .identifier hc hcs hkey

theorem IsLexeme.ne_endOfFile {v : String} (h : IsLexeme kind v spelling) : kind ≠ .endOfFile := by
  cases h with
  | mark h =>
    have hall : ∀ m ∈ marks, m.2 ≠ .endOfFile := by decide
    exact hall _ h
  | integer => exact nofun
  | keyword h =>
    have hall : ∀ k ∈ TokenKind.keywords, k.2 ≠ .endOfFile := by decide
    exact hall _ h
  | identifier => exact nofun
  | string => exact nofun

theorem IsLexeme.first {v : String} (h : IsLexeme kind v spelling) :
    ∃ c cs, spelling = c :: cs ∧ isBlank c = false := by
  have hword {c : Char} (hc : beginsWord c = true) : isBlank c = false := by
    rcases toNat_of_beginsWord hc with hc | rfl
    · exact isBlank_eq_false (by omega) (by omega)
    · exact isBlank_eq_false (by decide) (by decide)
  cases h with
  | @mark c kind h =>
    have hall : ∀ m ∈ marks, isBlank m.1 = false := by decide
    exact ⟨c, [], rfl, hall _ h⟩
  | integer hne h =>
    cases spelling with
    | nil => exact absurd rfl hne
    | cons c cs =>
      have hc := toNat_of_isDigit (h c (List.mem_cons_self ..))
      exact ⟨c, cs, rfl, isBlank_eq_false (by omega) (by omega)⟩
  | keyword h =>
    obtain ⟨c, cs, hspelling, hc, _⟩ := keyword_spelling h
    exact ⟨c, cs, hspelling, hword hc⟩
  | identifier hc => exact ⟨_, _, rfl, hword hc⟩
  | string hquote =>
    refine ⟨_, _, rfl, ?_⟩
    rcases hquote with rfl | rfl
    · decide
    · decide

theorem readQuoted_append (hquote : quote ≠ '\\') (h : IsInterior quote interior value)
    (rest : List Char) :
    readQuoted quote (interior ++ quote :: rest) = .closed value (interior ++ [quote]) rest := by
  induction h with
  | nil =>
    rw [List.nil_append, readQuoted.eq_def]
    dsimp only
    rw [if_pos rfl]
    rfl
  | char hc hbackslash h ih =>
    rw [List.cons_append, readQuoted.eq_def]
    dsimp only
    rw [if_neg hc, if_neg hbackslash, ih]
    rfl
  | escape he h ih =>
    rw [List.cons_append, List.cons_append, readQuoted.eq_def]
    dsimp only
    rw [if_neg hquote.symm, if_pos rfl, unescape?_eq_some_iff.2 he, ih]
    rfl

theorem Quoted.cons_eq_closed_iff {q : Quoted} {prefixed : List Char} :
    q.cons c prefixed = .closed value taken rest ↔
      ∃ value' taken', q = .closed value' taken' rest ∧ value = c :: value' ∧
        taken = prefixed ++ taken' := by
  cases q with
  | closed value' taken' rest' =>
    simp only [Quoted.cons, Quoted.closed.injEq]
    constructor
    · rintro ⟨rfl, rfl, rfl⟩
      exact ⟨_, _, ⟨rfl, rfl, rfl⟩, rfl, rfl⟩
    · rintro ⟨_, _, ⟨rfl, rfl, rfl⟩, rfl, rfl⟩
      exact ⟨rfl, rfl, rfl⟩
  | unclosed => simp [Quoted.cons]
  | badEscape => simp [Quoted.cons]

theorem readQuoted_sound (h : readQuoted quote cs = .closed value taken rest) :
    ∃ interior, IsInterior quote interior value ∧ taken = interior ++ [quote] ∧
      cs = taken ++ rest := by
  fun_induction readQuoted quote cs generalizing value taken with
  | case1 => cases h
  | case2 cs =>
    cases h
    exact ⟨[], .nil, rfl, rfl⟩
  | case3 => cases h
  | case4 e rest' c hc _ ih =>
    obtain ⟨value', taken', hread, rfl, rfl⟩ := Quoted.cons_eq_closed_iff.1 h
    obtain ⟨interior, hinterior, rfl, rfl⟩ := ih hread
    exact ⟨_, .escape (unescape?_eq_some_iff.1 hc) hinterior, rfl, rfl⟩
  | case5 => cases h
  | case6 c cs hquote hbackslash ih =>
    obtain ⟨value', taken', hread, rfl, rfl⟩ := Quoted.cons_eq_closed_iff.1 h
    obtain ⟨interior, hinterior, rfl, rfl⟩ := ih hread
    exact ⟨_, .char hquote hbackslash hinterior, rfl, rfl⟩

theorem lexeme_mark (h : (c, kind) ∈ marks) (rest : List Char) :
    lexeme c rest = .token kind (String.singleton c) [c] rest := by
  rw [lexeme, ofMark?_eq_some_iff.2 h]

theorem lexeme_integer (hc : c.isDigit = true) (hcs : ∀ d ∈ cs, d.isDigit = true)
    (hrest : ∀ d ∈ rest.head?, d.isDigit = false) :
    lexeme c (cs ++ rest) = .token .integer (String.ofList (c :: cs)) (c :: cs) rest := by
  obtain ⟨htake, hdrop⟩ := takeWhile_dropWhile_append hcs hrest
  rw [lexeme, ofMark?_eq_none (.inr (.inl hc))]
  dsimp only
  rw [if_neg (not_quote (.inl hc)), if_pos hc, htake, hdrop]

theorem lexeme_word (hc : beginsWord c = true) (hcs : ∀ d ∈ cs, continuesWord d = true)
    (hrest : ∀ d ∈ rest.head?, continuesWord d = false) :
    lexeme c (cs ++ rest) =
      .token (.ofWord (String.ofList (c :: cs))) (String.ofList (c :: cs)) (c :: cs) rest := by
  obtain ⟨htake, hdrop⟩ := takeWhile_dropWhile_append hcs hrest
  rw [lexeme, ofMark?_eq_none (.inr (.inr hc))]
  dsimp only
  rw [if_neg (not_quote (.inr hc)), if_neg (not_isDigit_of_beginsWord hc), if_pos hc, htake, hdrop]

theorem lexeme_string (hquote : quote = '"' ∨ quote = '\'') (h : IsInterior quote interior value)
    (rest : List Char) :
    lexeme quote ((interior ++ [quote]) ++ rest) =
      .token .string (String.ofList value) (quote :: (interior ++ [quote])) rest := by
  have hbackslash : quote ≠ '\\' := by
    rintro rfl
    exact absurd hquote (by decide)
  rw [lexeme, ofMark?_eq_none (.inl hquote), List.append_assoc, List.singleton_append]
  dsimp only
  rw [if_pos hquote, readQuoted_append hbackslash h]

/-- If each character of a kind would make a lexeme longer, then none follows a longest lexeme. -/
theorem Piece.Greedy.boundary {p : Piece} (h : p.Greedy rest) {goesOn : Char → Bool}
    (hlonger : ∀ d, goesOn d = true → ∃ kind value, IsLexeme kind value (p.spelling ++ [d])) :
    ∀ d ∈ rest.head?, goesOn d = false := by
  intro d hd
  rw [Bool.eq_false_iff]
  intro hgoes
  obtain ⟨kind, value, hlexeme⟩ := hlonger d hgoes
  cases rest with
  | nil => cases hd
  | cons d' rest =>
    cases hd
    have hle := h.longest hlexeme ⟨rest, by rw [List.append_assoc, List.singleton_append]⟩
    rw [List.length_append, List.length_singleton] at hle
    omega

/-- The longest lexeme is the one that is taken. -/
theorem Piece.Greedy.lexeme_eq {p : Piece} (h : p.Greedy rest) (hp : p.spelling = c :: cs) :
    Syntax.lexeme c (cs ++ rest) = .token p.kind p.value p.spelling rest := by
  obtain ⟨blanks, kind, value, spelling⟩ := p
  obtain rfl : spelling = c :: cs := hp
  have hl : IsLexeme kind value (c :: cs) := h.lexeme
  have hword (hc : beginsWord c = true) (hcs : ∀ d ∈ cs, continuesWord d = true) :=
    lexeme_word hc hcs <| h.boundary fun d hd => by
      have hlonger : ∀ d' ∈ cs ++ [d], continuesWord d' = true := by
        intro d' hd'
        rcases List.mem_append.1 hd' with hd' | hd'
        · exact hcs d' hd'
        · rw [List.mem_singleton.1 hd']
          exact hd
      exact ⟨_, _, isLexeme_word hc hlonger⟩
  generalize hspelling : c :: cs = spelling at hl
  cases hl with
  | mark hm =>
    cases hspelling
    exact lexeme_mark hm rest
  | integer _ hd =>
    cases hspelling
    have hcs : ∀ d ∈ cs, d.isDigit = true := fun d hd' => hd d (List.mem_cons_of_mem c hd')
    refine lexeme_integer (hd c (List.mem_cons_self ..)) hcs (h.boundary fun d hd' => ?_)
    refine ⟨_, _, .integer nofun fun d' hmem => ?_⟩
    rcases List.mem_append.1 hmem with hmem | hmem
    · exact hd d' hmem
    · rw [List.mem_singleton.1 hmem]
      exact hd'
  | keyword hk =>
    have hvalue : value = String.ofList (c :: cs) := by rw [hspelling, String.ofList_toList]
    obtain ⟨_, _, hspelled, hc, hcs⟩ := keyword_spelling hk
    rw [← hspelling] at hspelled
    cases hspelled
    have hlexeme := hword hc hcs
    rw [← hvalue, ofWord_of_mem hk, hspelling] at hlexeme
    exact hlexeme
  | identifier hc hcs hkey =>
    cases hspelling
    rw [hword hc hcs, ofWord_of_notMem hkey]
  | string hquote hi =>
    cases hspelling
    exact lexeme_string hquote hi rest

theorem isLexeme_of_lexeme {v : String} (h : lexeme c cs = .token kind v taken rest) :
    IsLexeme kind v taken ∧ c :: cs = taken ++ rest := by
  rw [lexeme] at h
  split at h
  · next hm =>
    cases h
    exact ⟨.mark (ofMark?_eq_some_iff.1 hm), rfl⟩
  split at h
  · next hquote =>
    split at h
    · next hread =>
      cases h
      obtain ⟨interior, hinterior, rfl, rfl⟩ := readQuoted_sound hread
      exact ⟨.string hquote hinterior, rfl⟩
    · cases h
    · cases h
  split at h
  · next hc =>
    cases h
    refine ⟨.integer nofun fun d hd => ?_, ?_⟩
    · rcases List.mem_cons.1 hd with rfl | hd
      · exact hc
      · exact List.all_eq_true.1 (List.all_takeWhile) d hd
    · rw [List.cons_append, List.takeWhile_append_dropWhile]
  split at h
  · next hc =>
    cases h
    refine ⟨isLexeme_word hc fun d hd => ?_, ?_⟩
    · exact List.all_eq_true.1 (List.all_takeWhile) d hd
    · rw [List.cons_append, List.takeWhile_append_dropWhile]
  · cases h

theorem exists_greedy {text : List Char} {v : String} (hblanks : ∀ c ∈ blanks, isBlank c = true)
    (h : IsLexeme kind v spelling) (hbegins : spelling <+: text) :
    ∃ p rest, Piece.Greedy p rest ∧ p.blanks = blanks ∧ text = p.spelling ++ rest := by
  -- Each longer lexeme leaves less of the text.
  induction hn : text.length - spelling.length using Nat.strongRecOn generalizing
    kind v spelling with
  | ind n ih =>
    by_cases hlonger : ∃ kind' v' spelling', IsLexeme kind' v' spelling' ∧ spelling' <+: text ∧
        spelling.length < spelling'.length
    · obtain ⟨kind', v', spelling', h', hbegins', hlt⟩ := hlonger
      have hle := hbegins'.length_le
      exact ih _ (by omega) h' hbegins' rfl
    · obtain ⟨rest, rfl⟩ := hbegins
      refine ⟨⟨blanks, kind, v, spelling⟩, rest, ⟨hblanks, h, ?_⟩, rfl, rfl⟩
      intro kind' v' spelling' h' hbegins'
      exact Nat.le_of_not_lt fun hlt => hlonger ⟨_, _, _, h', hbegins', hlt⟩

/-- The lexeme that is taken is the longest one. -/
theorem greedy_of_lexeme {v : String} (hblanks : ∀ c ∈ blanks, isBlank c = true)
    (h : lexeme c cs = .token kind v taken rest) :
    Piece.Greedy ⟨blanks, kind, v, taken⟩ rest ∧ c :: cs = taken ++ rest := by
  obtain ⟨hlexeme, htext⟩ := isLexeme_of_lexeme h
  obtain ⟨p, rest', hp, rfl, htext'⟩ := exists_greedy hblanks hlexeme ⟨rest, htext.symm⟩
  obtain ⟨c', cs', hspelling, _⟩ := hp.lexeme.first
  have htext'' := htext'
  rw [hspelling, List.cons_append] at htext''
  cases htext''
  rw [hp.lexeme_eq hspelling] at h
  cases h
  exact ⟨hp, htext'⟩

end Lexemes

section Texts

/-- The text that pieces make with blanks after them. -/
def spelled (blanks : List Char) : List Piece → List Char
  | [] => blanks
  | p :: ps => p.blanks ++ (p.spelling ++ spelled blanks ps)

/-- The tokens of pieces that begin at a place. -/
def lay (blanks : List Char) (start : Position) : List Piece → Lexed
  | [] => ⟨[], start.walk blanks []⟩
  | p :: ps =>
    let rest := spelled blanks ps
    let first := start.walk p.blanks (p.spelling ++ rest)
    let stop := first.walk p.spelling rest
    let l := lay blanks stop ps
    { l with tokens := ⟨p.kind, p.value, first, stop⟩ :: l.tokens }

theorem IsCut.spelled_eq (h : IsCut cs ps blanks) : spelled blanks ps = cs := by
  induction h with
  | blanks => rfl
  | piece _ _ ih => rw [spelled, ih]

theorem lexFrom_of_dropWhile_nil (start : Position) (h : cs.dropWhile isBlank = []) :
    lexFrom start cs = .ok ⟨[], start.walk cs []⟩ := by
  rw [lexFrom.eq_def]
  split
  · rfl
  · next hdrop =>
    rw [h] at hdrop
    cases hdrop

theorem lexFrom_of_token {start : Position} {after : List Char} {v : String} {l : Lexed}
    (hdrop : cs.dropWhile isBlank = c :: rest) (hl : lexeme c rest = .token kind v taken after)
    (h : lexFrom ((start.walk (cs.takeWhile isBlank) (c :: rest)).walk taken after) after =
      .ok l) :
    lexFrom start cs = .ok { l with tokens :=
      ⟨kind, v, start.walk (cs.takeWhile isBlank) (c :: rest),
        (start.walk (cs.takeWhile isBlank) (c :: rest)).walk taken after⟩ :: l.tokens } := by
  rw [lexFrom.eq_def]
  split
  · next hdrop' =>
    rw [hdrop] at hdrop'
    cases hdrop'
  · next hdrop' =>
    rw [hdrop] at hdrop'
    cases hdrop'
    dsimp only
    split
    · next hl' =>
      rw [hl] at hl'
      cases hl'
      rw [h]
    · next hl' =>
      rw [hl] at hl'
      cases hl'

theorem lexFrom_of_isCut (h : IsCut cs ps blanks) (start : Position) :
    lexFrom start cs = .ok (lay blanks start ps) := by
  induction h generalizing start with
  | @blanks cs h => exact lexFrom_of_dropWhile_nil start (List.dropWhile_eq_nil_iff.2 h)
  | @piece p rest blanks ps hp h ih =>
    obtain ⟨c, cs, hspelling, hc⟩ := hp.lexeme.first
    have hrest : ∀ d ∈ (p.spelling ++ rest).head?, isBlank d = false := by
      rw [hspelling]
      rintro _ ⟨⟩
      exact hc
    obtain ⟨htake, hdrop⟩ := takeWhile_dropWhile_append hp.blanks hrest
    have hspelling' : p.spelling ++ rest = c :: (cs ++ rest) := by rw [hspelling, List.cons_append]
    rw [lexFrom_of_token (hdrop.trans hspelling') (hp.lexeme_eq hspelling) (ih _), htake, lay,
      h.spelled_eq, hspelling']

/-- The pieces of a text that has tokens. -/
theorem exists_isCut_of_lexFrom {start : Position} {l : Lexed} (h : lexFrom start cs = .ok l) :
    ∃ ps blanks, IsCut cs ps blanks := by
  have hblanks (cs : List Char) : ∀ c ∈ cs.takeWhile isBlank, isBlank c = true :=
    List.all_eq_true.1 List.all_takeWhile
  fun_induction lexFrom start cs generalizing l with
  | case1 start cs hdrop => exact ⟨[], cs, .blanks (List.dropWhile_eq_nil_iff.1 hdrop)⟩
  | case2 start cs c rest hdrop first kind v taken after hl stop l' hl' =>
    rename_i ih
    obtain ⟨ps, blanks, hcut⟩ := ih hl'
    obtain ⟨hp, htext⟩ := greedy_of_lexeme (hblanks cs) hl
    have hcut := IsCut.piece hp hcut
    dsimp only at hcut
    rw [← htext, ← hdrop, List.takeWhile_append_dropWhile] at hcut
    exact ⟨_, blanks, hcut⟩
  | case3 => cases h
  | case4 => cases h

end Texts

section Bytes

theorem encodeUtf8_append (a b : List Char) :
    encodeUtf8 (a ++ b) = encodeUtf8 a ++ encodeUtf8 b := List.flatMap_append

theorem encodeUtf8_cons (c : Char) (cs : List Char) :
    encodeUtf8 (c :: cs) = String.utf8EncodeChar c ++ encodeUtf8 cs := List.flatMap_cons

theorem length_encodeUtf8_pos (h : cs ≠ []) : 0 < (encodeUtf8 cs).length := by
  cases cs with
  | nil => exact absurd rfl h
  | cons c cs =>
    rw [encodeUtf8_cons, List.length_append, String.length_utf8EncodeChar]
    exact Nat.add_pos_left c.utf8Size_pos _

theorem offset_advance (p : Position) (c : Char) (next : Option Char) :
    (p.advance c next).offset = p.offset + c.utf8Size := by
  unfold Position.advance
  split
  · rfl
  split
  · split
    · rfl
    · rfl
  · rfl

theorem offset_walk (p : Position) (cs rest : List Char) :
    (p.walk cs rest).offset = p.offset + (encodeUtf8 cs).length := by
  induction cs generalizing p with
  | nil => rfl
  | cons c cs ih =>
    rw [Position.walk, ih, offset_advance, encodeUtf8_cons, List.length_append,
      String.length_utf8EncodeChar, Nat.add_assoc]

theorem slice_append (span : Span) (before inner after : List Char)
    (hstart : span.start.offset = (encodeUtf8 before).length)
    (hstop : span.stop.offset = (encodeUtf8 before).length + (encodeUtf8 inner).length) :
    slice (before ++ (inner ++ after)) span = encodeUtf8 inner := by
  rw [slice, hstart, hstop, encodeUtf8_append, encodeUtf8_append, ← List.append_assoc,
    ← List.length_append, List.take_left, List.drop_left]

/-- Tokens laid out from a place show the pieces of the text that goes on there. -/
theorem shows_lay (hps : ∀ p ∈ ps, IsLexeme p.kind p.value p.spelling) (before : List Char)
    {start : Position} (hstart : start.offset = (encodeUtf8 before).length) :
    (lay blanks start ps).Shows start (before ++ spelled blanks ps) ps blanks := by
  induction ps generalizing before start with
  | nil =>
    have hstop : (start.walk blanks []).offset =
        (encodeUtf8 before).length + (encodeUtf8 blanks).length := by rw [offset_walk, hstart]
    have hblanks (span : Span) := slice_append span before blanks []
    rw [List.append_nil] at hblanks
    have hend (span : Span) := slice_append span (before ++ blanks) [] []
    rw [encodeUtf8_append, List.length_append, List.append_nil, List.append_nil] at hend
    refine ⟨?_, ?_, ?_, List.pairwise_singleton _ _, nofun, ?_⟩
    · exact congrArg (fun bytes => [(TokenKind.endOfFile, "EOF", bytes)])
        (hend (.point (start.walk blanks [])) hstop hstop)
    · exact congrArg (fun bytes => [bytes])
        (hblanks ⟨start, start.walk blanks []⟩ hstart hstop)
    · intro t ht
      rw [List.mem_singleton.1 ht]
      exact hstart.trans_le (Nat.le_add_right ..) |>.trans_eq hstop.symm
    · rw [spelled, encodeUtf8_append, List.length_append]
      exact hstop
  | cons p ps ih =>
    obtain ⟨hp, hps⟩ := List.forall_mem_cons.1 hps
    let rest := spelled blanks ps
    let first := start.walk p.blanks (p.spelling ++ rest)
    let stop := first.walk p.spelling rest
    have hfirst : first.offset = start.offset + (encodeUtf8 p.blanks).length := offset_walk ..
    have hstop : stop.offset = first.offset + (encodeUtf8 p.spelling).length := offset_walk ..
    have hfirst' : first.offset = (encodeUtf8 (before ++ p.blanks)).length := by
      rw [hfirst, hstart, encodeUtf8_append, List.length_append]
    have hstop' : stop.offset = (encodeUtf8 (before ++ p.blanks ++ p.spelling)).length := by
      rw [hstop, hfirst', encodeUtf8_append _ p.spelling, List.length_append]
    have hl := ih hps _ hstop'
    have hgap := slice_append ⟨start, first⟩ before p.blanks (p.spelling ++ rest) hstart
      (by rw [← hstart]; exact hfirst)
    have hspan := slice_append ⟨first, stop⟩ (before ++ p.blanks) p.spelling rest hfirst'
      (by rw [← hfirst']; exact hstop)
    have htext : before ++ p.blanks ++ p.spelling ++ rest = before ++ spelled blanks (p :: ps) := by
      rw [List.append_assoc, List.append_assoc]
      rfl
    rw [htext] at hl
    rw [List.append_assoc] at hspan
    refine ⟨?_, ?_, ?_, ?_, ?_, hl.stop⟩
    · exact congrArg₂ (fun bytes l => (p.kind, p.value, bytes) :: l) hspan hl.tokens
    · exact congrArg₂ List.cons hgap hl.gaps
    · refine List.forall_mem_cons.2 ⟨hfirst ▸ Nat.le_add_right .., fun t ht => ?_⟩
      have hlater := hl.from_start t ht
      omega
    · exact List.pairwise_cons.2 ⟨hl.from_start, hl.ordered⟩
    · refine List.forall_mem_cons.2 ⟨⟨hp.ne_endOfFile, ?_⟩, hl.inner⟩
      obtain ⟨c, cs, hspelling, _⟩ := hp.first
      have hpos := length_encodeUtf8_pos (hspelling ▸ List.cons_ne_nil c cs)
      exact hstop ▸ Nat.lt_add_of_pos_right hpos

end Bytes

theorem IsCut.isLexeme (h : IsCut cs ps blanks) :
    ∀ p ∈ ps, IsLexeme p.kind p.value p.spelling := by
  induction h with
  | blanks => exact nofun
  | piece hp _ ih => exact List.forall_mem_cons.2 ⟨hp.lexeme, ih⟩

/-- The scanner is exact: the texts that have tokens are those that can be cut into lexemes and
blanks, and the tokens are the lexemes of the cut, in their order and with the end of the text after
them. -/
theorem lex_exact (source : String) :
    ((∃ l, lex source = .ok l) ↔ ∃ ps blanks, IsCut source.toList ps blanks) ∧
    ∀ l ps blanks, lex source = .ok l → IsCut source.toList ps blanks →
      l.Shows .origin source.toList ps blanks := by
  have hcomplete {ps : List Piece} {blanks : List Char} (h : IsCut source.toList ps blanks) :=
    lexFrom_of_isCut h .origin
  refine ⟨⟨?_, ?_⟩, ?_⟩
  · rintro ⟨l, hl⟩
    exact exists_isCut_of_lexFrom hl
  · rintro ⟨ps, blanks, h⟩
    exact ⟨_, hcomplete h⟩
  · intro l ps blanks hl h
    obtain rfl : lay blanks .origin ps = l := Except.ok.inj ((hcomplete h).symm.trans hl)
    have hshows : (lay blanks .origin ps).Shows .origin ([] ++ spelled blanks ps) ps blanks :=
      shows_lay h.isLexeme [] rfl
    rw [List.nil_append, h.spelled_eq] at hshows
    exact hshows

theorem lex_exact_escaped : ∃ l ps blanks,
    lex " allow'é\\'\"'07 " = .ok l ∧ IsCut " allow'é\\'\"'07 ".toList ps blanks ∧
    l.Shows .origin " allow'é\\'\"'07 ".toList ps blanks ∧
    l.toList.map (fun t => (t.kind, t.value, t.span.start.offset, t.span.stop.offset)) = [
      (.allow, "allow", 1, 6), (.string, "é'\"", 6, 13), (.integer, "07", 13, 15),
      (.endOfFile, "EOF", 16, 16)] := by
  have htokens : (lex " allow'é\\'\"'07 ").toOption.map (fun l => l.toList.map
      fun t => (t.kind, t.value, t.span.start.offset, t.span.stop.offset)) = some [
      (.allow, "allow", 1, 6), (.string, "é'\"", 6, 13), (.integer, "07", 13, 15),
      (.endOfFile, "EOF", 16, 16)] := by decide +kernel
  cases hl : lex " allow'é\\'\"'07 " with
  | error => rw [hl] at htokens; cases htokens
  | ok l =>
    rw [hl] at htokens
    obtain ⟨hcuts, hshows⟩ := lex_exact " allow'é\\'\"'07 "
    obtain ⟨ps, blanks, hcut⟩ := hcuts.1 ⟨l, hl⟩
    exact ⟨l, ps, blanks, rfl, hcut, hshows l ps blanks hl hcut, Option.some.inj htokens⟩

end GuildPolicy.Syntax
