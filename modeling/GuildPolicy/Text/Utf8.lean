namespace GuildPolicy.Text

def encodeUtf8 (cs : List Char) : List UInt8 := cs.flatMap String.utf8EncodeChar

/--
Where bytes stop being text: after `valid` bytes comes a sequence of `length` bytes that no
character begins with, or, without a length, the bytes end inside a character.
-/
structure Utf8Fault where
  valid : Nat
  length : Option Nat
  deriving DecidableEq

/-- What the first byte of a character says about the rest of it. -/
inductive LeadByte
  /-- The character is the byte. -/
  | single
  /-- So many bytes follow, the first of them between two bounds. -/
  | followed (count lo hi : Nat)
  /-- No character begins so. -/
  | invalid

def leadByte (b : Nat) : LeadByte :=
  if b < 0x80 then .single
  else if b < 0xc2 then .invalid
  else if b < 0xe0 then .followed 1 0x80 0xbf
  else if b = 0xe0 then .followed 2 0xa0 0xbf
  else if b = 0xed then .followed 2 0x80 0x9f
  else if b < 0xf0 then .followed 2 0x80 0xbf
  else if b = 0xf0 then .followed 3 0x90 0xbf
  else if b < 0xf4 then .followed 3 0x80 0xbf
  else if b = 0xf4 then .followed 3 0x80 0x8f
  else .invalid

/-- Six bits of a byte that continues a character. -/
def payload (b : UInt8) : Nat := b.toNat % 0x40

def continues (b : UInt8) : Bool := 0x80 ≤ b.toNat && b.toNat ≤ 0xbf

/-- The text of bytes that begin `start` bytes into their source. -/
def decodeUtf8From (start : Nat) : List UInt8 → Except Utf8Fault (List Char)
  | [] => .ok []
  | b :: rest =>
    match leadByte b.toNat with
    | .invalid => .error ⟨start, some 1⟩
    | .single => (Char.ofNat b.toNat :: ·) <$> decodeUtf8From (start + 1) rest
    | .followed count lo hi =>
      match rest with
      | [] => .error ⟨start, none⟩
      | b₁ :: rest =>
        if b₁.toNat < lo ∨ hi < b₁.toNat then .error ⟨start, some 1⟩
        else if count = 1 then
          let c := Char.ofNat (b.toNat % 0x20 * 0x40 + payload b₁)
          (c :: ·) <$> decodeUtf8From (start + 2) rest
        else
          match rest with
          | [] => .error ⟨start, none⟩
          | b₂ :: rest =>
            if !continues b₂ then .error ⟨start, some 2⟩
            else if count = 2 then
              let c := Char.ofNat
                (b.toNat % 0x10 * 0x1000 + payload b₁ * 0x40 + payload b₂)
              (c :: ·) <$> decodeUtf8From (start + 3) rest
            else
              match rest with
              | [] => .error ⟨start, none⟩
              | b₃ :: rest =>
                if !continues b₃ then .error ⟨start, some 3⟩
                else
                  let c := Char.ofNat
                    (b.toNat % 8 * 0x40000 + payload b₁ * 0x1000 + payload b₂ * 0x40 + payload b₃)
                  (c :: ·) <$> decodeUtf8From (start + 4) rest

def decodeUtf8 (bytes : List UInt8) : Except Utf8Fault (List Char) := decodeUtf8From 0 bytes

def Utf8Fault.message (fault : Utf8Fault) : String :=
  match fault.length with
  | some n => s!"invalid utf-8 sequence of {n} bytes from index {fault.valid}"
  | none => s!"incomplete utf-8 byte sequence from index {fault.valid}"

end GuildPolicy.Text
