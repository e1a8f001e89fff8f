import GuildPolicy.Syntax.Error
import GuildPolicy.Text.Blank

namespace GuildPolicy.Syntax

open GuildPolicy.Source GuildPolicy.Text

def beginsWord (c : Char) : Bool := c.isAlpha || c = '_' || c = '$'

def continuesWord (c : Char) : Bool := c.isAlphanum || c = '_' || c = '$'

def unescape? : Char → Option Char
  | 'n' => some '\n'
  | 'r' => some '\r'
  | 't' => some '\t'
  | 'f' => some '\x0c'
  | 'v' => some '\x0b'
  | '"' => some '"'
  | '\'' => some '\''
  | '\\' => some '\\'
  | _ => none

/-- What follows an opening quote. -/
inductive Quoted
  /-- A string with its value, the characters up to the closing quote, and the rest. -/
  | closed (value taken rest : List Char)
  | unclosed
  /-- A backslash before a character that it gives no meaning to. -/
  | badEscape (before : List Char) (c : Char) (rest : List Char)
  deriving DecidableEq

/-- One more character of a string, written as `spelling`. -/
def Quoted.cons (c : Char) (spelling : List Char) : Quoted → Quoted
  | .closed value taken rest => .closed (c :: value) (spelling ++ taken) rest
  | .unclosed => .unclosed
  | .badEscape before e rest => .badEscape (spelling ++ before) e rest

def readQuoted (quote : Char) : List Char → Quoted
  | [] => .unclosed
  | c :: cs =>
    if c = quote then .closed [] [c] cs
    else if c = '\\' then
      match cs with
      | [] => .unclosed
      | e :: rest =>
        match unescape? e with
        | some value => (readQuoted quote rest).cons value [c, e]
        | none => .badEscape [] e rest
    else (readQuoted quote cs).cons c [c]

/-- The first lexeme of a text, or what is wrong there. -/
inductive Lexeme
  | token (kind : TokenKind) (value : String) (taken rest : List Char)
  /-- `piece` is at fault, after the characters `before`. -/
  | fault (fault : SyntaxFault) (before piece rest : List Char)

def lexeme (c : Char) (cs : List Char) : Lexeme :=
  match TokenKind.ofMark? c with
  | some kind => .token kind (String.singleton c) [c] cs
  | none =>
    if c = '"' ∨ c = '\'' then
      match readQuoted c cs with
      | .closed value taken rest => .token .string (String.ofList value) (c :: taken) rest
      | .unclosed => .fault .unterminatedString [] (c :: cs) []
      | .badEscape before e rest => .fault (.invalidEscape e) (c :: before) ['\\', e] rest
    else if c.isDigit then
      let digits := c :: cs.takeWhile Char.isDigit
      .token .integer (String.ofList digits) digits (cs.dropWhile Char.isDigit)
    else if beginsWord c then
      let word := c :: cs.takeWhile continuesWord
      .token (.ofWord (String.ofList word)) (String.ofList word) word (cs.dropWhile continuesWord)
    else
      .fault (.unexpectedCharacter c) [] [c] cs

/-- The tokens of a text and the place where it ends. -/
structure Lexed where
  tokens : List Token
  stop : Position
  deriving DecidableEq

def Lexed.toList (l : Lexed) : List Token := l.tokens ++ [.endOfFile l.stop]

theorem length_lt_of_readQuoted {quote : Char} {cs value taken rest : List Char}
    (h : readQuoted quote cs = .closed value taken rest) : rest.length < cs.length := by
  fun_induction readQuoted quote cs generalizing value taken with
  | case1 => simp at h
  | case2 => simp_all
  | case3 => simp at h
  | case4 e rest' _ value' _ ih =>
    revert h
    cases hq : readQuoted quote rest' with
    | closed v t r =>
      intro h
      simp only [Quoted.cons, Quoted.closed.injEq] at h
      have := ih (hq.trans (by rw [h.2.2]))
      simp only [List.length_cons]
      omega
    | unclosed => simp [Quoted.cons]
    | badEscape => simp [Quoted.cons]
  | case5 => simp at h
  | case6 c cs' _ _ ih =>
    revert h
    cases hq : readQuoted quote cs' with
    | closed v t r =>
      intro h
      simp only [Quoted.cons, Quoted.closed.injEq] at h
      have := ih (hq.trans (by rw [h.2.2]))
      simp only [List.length_cons]
      omega
    | unclosed => simp [Quoted.cons]
    | badEscape => simp [Quoted.cons]

theorem length_le_of_lexeme {c : Char} {cs taken rest : List Char} {kind : TokenKind}
    {value : String} (h : lexeme c cs = .token kind value taken rest) :
    rest.length ≤ cs.length := by
  unfold lexeme at h
  split at h
  · simp_all
  · split at h
    · split at h
      · next hq =>
        simp only [Lexeme.token.injEq] at h
        have := length_lt_of_readQuoted hq
        rw [← h.2.2.2]
        omega
      · simp at h
      · simp at h
    · split at h
      · simp only [Lexeme.token.injEq] at h
        rw [← h.2.2.2]
        exact (List.dropWhile_sublist _).length_le
      · split at h
        · simp only [Lexeme.token.injEq] at h
          rw [← h.2.2.2]
          exact (List.dropWhile_sublist _).length_le
        · simp at h

/-- The tokens of the text `cs`, which begins at the place `p`. -/
def lexFrom (p : Position) (cs : List Char) : Except SyntaxError Lexed :=
  match _hc : cs.dropWhile isBlank with
  | [] => .ok ⟨[], p.walk cs []⟩
  | c :: rest =>
    let start := p.walk (cs.takeWhile isBlank) (c :: rest)
    match _hl : lexeme c rest with
    | .token kind value taken rest =>
      let stop := start.walk taken rest
      match lexFrom stop rest with
      | .ok l => .ok { l with tokens := ⟨kind, value, start, stop⟩ :: l.tokens }
      | .error e => .error e
    | .fault fault before piece rest =>
      let start := start.walk before (piece ++ rest)
      .error ⟨fault, start, start.walk piece rest⟩
termination_by cs.length
decreasing_by
  have h₁ := length_le_of_lexeme _hl
  have h₂ : (cs.dropWhile isBlank).length ≤ cs.length := (List.dropWhile_sublist isBlank).length_le
  simp only [_hc, List.length_cons] at h₂
  omega

/-- Between blanks each token is the longest lexeme that begins there: a mark, a run of digits, a
word, or a string between two quotes of the same kind. -/
def lex (source : String) : Except SyntaxError Lexed := lexFrom .origin source.toList

end GuildPolicy.Syntax
