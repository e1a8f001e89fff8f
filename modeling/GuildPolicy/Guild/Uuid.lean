namespace GuildPolicy

/-- The id of a guild, a member, a role or a channel. -/
abbrev Uuid := BitVec 128

namespace Uuid

/-- The lower-case hexadecimal digit of a number below sixteen. -/
def hexDigit (n : Nat) : Char := Nat.digitChar n

/-- The value of a hexadecimal digit in either case. -/
def hexValue? (c : Char) : Option Nat :=
  if c.isDigit then some (c.toNat - '0'.toNat)
  else if 'a' ≤ c ∧ c ≤ 'f' then some (c.toNat - 'a'.toNat + 10)
  else if 'A' ≤ c ∧ c ≤ 'F' then some (c.toNat - 'A'.toNat + 10)
  else none

/-- The hexadecimal digits from the highest to the lowest. -/
def digits (id : Uuid) : List Char :=
  (List.range 32).map fun i => hexDigit (id.toNat / Nat.pow 16 (31 - i) % 16)

def hyphenate (cs : List Char) : List Char :=
  cs.take 8 ++ '-' :: (cs.drop 8).take 4 ++ '-' :: (cs.drop 12).take 4 ++
    '-' :: (cs.drop 16).take 4 ++ '-' :: cs.drop 20

/-- The digits in groups of 8, 4, 4, 4 and 12 with hyphens between them. -/
def text (id : Uuid) : String := String.ofList (hyphenate id.digits)

def ofDigits? (cs : List Char) : Option Uuid :=
  if cs.length = 32 then
    (cs.mapM hexValue?).map fun ds => BitVec.ofNat 128 (ds.foldl (fun n d => 16 * n + d) 0)
  else none

/-- The id that digits with hyphens between their groups write. -/
def ofHyphenated? (cs : List Char) : Option Uuid :=
  let plain := cs.filter (· ≠ '-')
  if hyphenate plain = cs then ofDigits? plain else none

/-- The hyphenated form in front of which a text has "urn:uuid:", in any case. -/
def dropUrn? (cs : List Char) : Option (List Char) :=
  if (cs.take 9).map Char.toLower = "urn:uuid:".toList then some (cs.drop 9) else none

/-- The hyphenated form that a text has between braces. -/
def dropBraces? (cs : List Char) : Option (List Char) :=
  if cs.head? = some '{' ∧ cs.getLast? = some '}' then some cs.tail.dropLast else none

/-- Reads the hyphenated form, also between braces or after "urn:uuid:", and the digits without
hyphens, with letters in any case. -/
def parse? (s : String) : Option Uuid :=
  let cs := s.toList
  match dropUrn? cs, dropBraces? cs with
  | some inner, _ => ofHyphenated? inner
  | none, some inner => ofHyphenated? inner
  | none, none => if cs.length = 32 then ofDigits? cs else ofHyphenated? cs

end Uuid

end GuildPolicy
