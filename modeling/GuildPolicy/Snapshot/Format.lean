import GuildPolicy.Error

namespace GuildPolicy

/-- A writer and a reader of values. A reader takes what it needs from the front of its bytes and
leaves the rest. -/
structure Format (α : Type) where
  write : α → List UInt8
  read : List UInt8 → Except DecodeFault (α × List UInt8)

namespace Format

variable {α β κ ν : Type}

def takeBytes : Nat → List UInt8 → Except DecodeFault (List UInt8 × List UInt8)
  | 0, bytes => .ok ([], bytes)
  | _ + 1, [] => .error .outOfBytes
  | n + 1, b :: bytes =>
    match takeBytes n bytes with
    | .ok (taken, rest) => .ok (b :: taken, rest)
    | .error f => .error f

/-- A number in `width` bytes, low byte first. -/
def digits : Nat → Nat → List UInt8
  | 0, _ => []
  | width + 1, n => UInt8.ofNat n :: digits width (n / 256)

/-- The number that bytes make, low byte first. -/
def ofDigits : List UInt8 → Nat
  | [] => 0
  | b :: bytes => b.toNat + 256 * ofDigits bytes

/-- Numbers below `256 ^ width`. -/
def number (width : Nat) : Format Nat where
  write := digits width
  read bytes :=
    match takeBytes width bytes with
    | .ok (taken, rest) => .ok (ofDigits taken, rest)
    | .error f => .error f

def convert (format : Format α) (pack : β → α) (unpack : α → β) : Format β where
  write b := format.write (pack b)
  read bytes :=
    match format.read bytes with
    | .ok (a, rest) => .ok (unpack a, rest)
    | .error f => .error f

/-- A format of values that some others do not stand for. -/
def refine (format : Format α) (pack : β → α) (unpack : α → Except DecodeFault β) : Format β where
  write b := format.write (pack b)
  read bytes :=
    match format.read bytes with
    | .error f => .error f
    | .ok (a, rest) =>
      match unpack a with
      | .ok b => .ok (b, rest)
      | .error f => .error f

def pair (first : Format α) (second : Format β) : Format (α × β) where
  write v := first.write v.1 ++ second.write v.2
  read bytes :=
    match first.read bytes with
    | .error f => .error f
    | .ok (a, rest) =>
      match second.read rest with
      | .ok (b, rest) => .ok ((a, b), rest)
      | .error f => .error f

/-- A byte that says whether a value follows, and the value. -/
def option (item : Format α) : Format (Option α) where
  write
    | none => [0]
    | some a => 1 :: item.write a
  read
    | [] => .error .outOfBytes
    | b :: bytes =>
      if b = 0 then .ok (none, bytes)
      else if b = 1 then
        match item.read bytes with
        | .ok (a, rest) => .ok (some a, rest)
        | .error f => .error f
      else .error (.invalidTag b)

def readMany (item : Format α) : Nat → List UInt8 → Except DecodeFault (List α × List UInt8)
  | 0, bytes => .ok ([], bytes)
  | n + 1, bytes =>
    match item.read bytes with
    | .error f => .error f
    | .ok (a, rest) =>
      match readMany item n rest with
      | .ok (as, rest) => .ok (a :: as, rest)
      | .error f => .error f

def length : Format Nat := number 8

/-- A sequence: its length, in eight bytes, and its items. -/
def list (item : Format α) : Format (List α) where
  write as := length.write as.length ++ as.flatMap item.write
  read bytes :=
    match length.read bytes with
    | .ok (n, rest) => item.readMany n rest
    | .error f => .error f

/-- A table; of repeated keys the first place and the last value count. -/
def table [DecidableEq κ] (key : Format κ) (value : Format ν) : Format (Table κ ν) :=
  (list (pair key value)).convert Table.entries Table.ofList

def byteString : Format (List UInt8) where
  write bytes := length.write bytes.length ++ bytes
  read bytes :=
    match length.read bytes with
    | .ok (n, rest) => takeBytes n rest
    | .error f => .error f

def text : Format String :=
  byteString.refine (fun s => Text.encodeUtf8 s.toList) fun bytes =>
    match Text.decodeUtf8 bytes with
    | .ok cs => .ok (String.ofList cs)
    | .error f => .error (.invalidText f)

def word : Format UInt32 := (number 4).convert UInt32.toNat UInt32.ofNat

def mask : Format Mask := (number 16).convert BitVec.toNat (BitVec.ofNat 128)

end Format

end GuildPolicy
