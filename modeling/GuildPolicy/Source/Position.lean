namespace GuildPolicy.Source

/-- A place between two characters: the bytes before it, and its line and column, from one, the way
an editor shows them. A line ends at a line feed, at a carriage return, or at the two together, and
a column is a character. -/
structure Position where
  offset : Nat
  line : Nat
  column : Nat
  deriving DecidableEq

def Position.origin : Position := ⟨0, 1, 1⟩

/-- The place after the character `c`, when `next` follows it. -/
def Position.advance (p : Position) (c : Char) (next : Option Char) : Position :=
  if c = '\n' then ⟨p.offset + c.utf8Size, p.line + 1, 1⟩
  else if c = '\r' then
    if next = some '\n' then { p with offset := p.offset + c.utf8Size }
    else ⟨p.offset + c.utf8Size, p.line + 1, 1⟩
  else ⟨p.offset + c.utf8Size, p.line, p.column + 1⟩

/-- The place after the characters `taken`, when the text goes on with `rest`. -/
def Position.walk (p : Position) (taken rest : List Char) : Position :=
  match taken with
  | [] => p
  | c :: cs => (p.advance c (cs.head?.or rest.head?)).walk cs rest

def Position.text (p : Position) : String := s!"{p.line}:{p.column}"

/-- The text from `start` up to `stop`. -/
structure Span where
  start : Position
  stop : Position
  deriving DecidableEq

/-- The span without characters at a place. -/
def Span.point (p : Position) : Span := ⟨p, p⟩

/-- The smallest span that covers both. -/
def Span.to (a b : Span) : Span where
  start := if b.start.offset < a.start.offset then b.start else a.start
  stop := if a.stop.offset < b.stop.offset then b.stop else a.stop

/-- Whether a span ends on a later line than it starts on. -/
def Span.isMultiline (s : Span) : Bool := s.start.line < s.stop.line

def Span.text (s : Span) : String := s.start.text ++ "-" ++ s.stop.text

theorem Position.walk_append (p : Position) (a b rest : List Char) :
    p.walk (a ++ b) rest = (p.walk a (b ++ rest)).walk b rest := by
  induction a generalizing p with
  | nil => simp [walk]
  | cons c cs ih =>
    simp only [List.cons_append, walk, ih, List.head?_append, Option.or_assoc]

end GuildPolicy.Source
