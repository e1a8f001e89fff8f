import GuildPolicy.Proofs.Outcome
import GuildPolicy.Text.Utf8

namespace GuildPolicy.Text

section Sequences

variable {b b₁ b₂ b₃ : UInt8} {lo hi : Nat} (start : Nat) (rest : List UInt8)

theorem decodeUtf8From_single (h : leadByte b.toNat = .single) :
    decodeUtf8From start (b :: rest) =
      (Char.ofNat b.toNat :: ·) <$> decodeUtf8From (start + 1) rest := by
  rw [decodeUtf8From, h]

theorem decodeUtf8From_two (h : leadByte b.toNat = .followed 1 lo hi)
    (h₁ : lo ≤ b₁.toNat ∧ b₁.toNat ≤ hi) :
    decodeUtf8From start (b :: b₁ :: rest) =
      (Char.ofNat (b.toNat % 0x20 * 0x40 + payload b₁) :: ·) <$>
        decodeUtf8From (start + 2) rest := by
  have hin : ¬(b₁.toNat < lo ∨ hi < b₁.toNat) := by omega
  rw [decodeUtf8From, h]
  dsimp only
  rw [if_neg hin, if_pos rfl]

theorem decodeUtf8From_three (h : leadByte b.toNat = .followed 2 lo hi)
    (h₁ : lo ≤ b₁.toNat ∧ b₁.toNat ≤ hi) (h₂ : continues b₂ = true) :
    decodeUtf8From start (b :: b₁ :: b₂ :: rest) =
      (Char.ofNat (b.toNat % 0x10 * 0x1000 + payload b₁ * 0x40 + payload b₂) :: ·) <$>
        decodeUtf8From (start + 3) rest := by
  have hin : ¬(b₁.toNat < lo ∨ hi < b₁.toNat) := by omega
  rw [decodeUtf8From, h]
  dsimp only
  rw [if_neg hin, if_neg (by decide), h₂]
  rfl

theorem decodeUtf8From_four (h : leadByte b.toNat = .followed 3 lo hi)
    (h₁ : lo ≤ b₁.toNat ∧ b₁.toNat ≤ hi) (h₂ : continues b₂ = true) (h₃ : continues b₃ = true) :
    decodeUtf8From start (b :: b₁ :: b₂ :: b₃ :: rest) =
      (Char.ofNat (b.toNat % 8 * 0x40000 + payload b₁ * 0x1000 + payload b₂ * 0x40 + payload b₃)
        :: ·) <$> decodeUtf8From (start + 4) rest := by
  have hin : ¬(b₁.toNat < lo ∨ hi < b₁.toNat) := by omega
  rw [decodeUtf8From, h]
  dsimp only
  rw [if_neg hin, if_neg (by decide), h₂, h₃]
  rfl

end Sequences

theorem toNat_ofNat_of_lt {n : Nat} (h : n < 256) : (UInt8.ofNat n).toNat = n := by
  rw [UInt8.toNat_ofNat']
  exact Nat.mod_eq_of_lt h

theorem continues_ofNat (n : Nat) : continues (UInt8.ofNat (n % 64 + 128)) = true := by
  have h := toNat_ofNat_of_lt (n := n % 64 + 128) (by omega)
  rw [continues, h, Bool.and_eq_true, decide_eq_true_eq, decide_eq_true_eq]
  omega

theorem payload_ofNat (n : Nat) : payload (UInt8.ofNat (n % 64 + 128)) = n % 64 := by
  rw [payload, toNat_ofNat_of_lt (by omega)]
  omega

/-- After the first byte of a character of three bytes, the second one is neither too low, as it
would be for a character of fewer bytes, nor that of a surrogate. -/
theorem leadByte_three {v : Nat} (hlo : 0x7ff < v) (hhi : v ≤ 0xffff) (hv : v.isValidChar) :
    ∃ lo hi, leadByte (v / 4096 % 16 + 224) = .followed 2 lo hi ∧
      lo ≤ v / 64 % 64 + 128 ∧ v / 64 % 64 + 128 ≤ hi := by
  unfold Nat.isValidChar at hv
  unfold leadByte
  rw [if_neg (by omega), if_neg (by omega), if_neg (by omega)]
  by_cases h₀ : v / 4096 % 16 + 224 = 0xe0
  · exact ⟨0xa0, 0xbf, if_pos h₀, by omega, by omega⟩
  rw [if_neg h₀]
  by_cases hd : v / 4096 % 16 + 224 = 0xed
  · exact ⟨0x80, 0x9f, if_pos hd, by omega, by omega⟩
  rw [if_neg hd]
  exact ⟨0x80, 0xbf, if_pos (by omega), by omega, by omega⟩

/-- After the first byte of a character of four bytes, the second one is neither too low nor that of
a number that is too large for a character. -/
theorem leadByte_four {v : Nat} (hlo : 0xffff < v) (hv : v.isValidChar) :
    ∃ lo hi, leadByte (v / 262144 % 8 + 240) = .followed 3 lo hi ∧
      lo ≤ v / 4096 % 64 + 128 ∧ v / 4096 % 64 + 128 ≤ hi := by
  unfold Nat.isValidChar at hv
  unfold leadByte
  rw [if_neg (by omega), if_neg (by omega), if_neg (by omega), if_neg (by omega),
    if_neg (by omega), if_neg (by omega)]
  by_cases h₀ : v / 262144 % 8 + 240 = 0xf0
  · exact ⟨0x90, 0xbf, if_pos h₀, by omega, by omega⟩
  rw [if_neg h₀]
  by_cases h₁ : v / 262144 % 8 + 240 < 0xf4
  · exact ⟨0x80, 0xbf, if_pos h₁, by omega, by omega⟩
  rw [if_neg h₁]
  exact ⟨0x80, 0x8f, if_pos (by omega), by omega, by omega⟩

theorem decodeUtf8From_char (start : Nat) (c : Char) (rest : List UInt8) :
    decodeUtf8From start (String.utf8EncodeChar c ++ rest) =
      (c :: ·) <$> decodeUtf8From (start + (String.utf8EncodeChar c).length) rest := by
  have hc {n : Nat} (h : n = c.val.toNat) : Char.ofNat n = c := h ▸ Char.ofNat_toNat c
  have hv : c.val.toNat.isValidChar := c.valid
  rw [String.utf8EncodeChar.eq_1]
  generalize c.val.toNat = v at hc hv
  by_cases h₁ : v ≤ 127
  · rw [if_pos h₁]
    have hb := toNat_ofNat_of_lt (n := v) (by omega)
    have hlead : leadByte (UInt8.ofNat v).toNat = .single := by
      rw [hb, leadByte, if_pos (by omega)]
    rw [List.singleton_append, decodeUtf8From_single start rest hlead, hc hb]
    rfl
  rw [if_neg h₁]
  by_cases h₂ : v ≤ 2047
  · rw [if_pos h₂]
    have hb := toNat_ofNat_of_lt (n := v / 64 % 32 + 192) (by omega)
    have hb₁ := toNat_ofNat_of_lt (n := v % 64 + 128) (by omega)
    have hlead : leadByte (UInt8.ofNat (v / 64 % 32 + 192)).toNat = .followed 1 0x80 0xbf := by
      rw [hb, leadByte, if_neg (by omega), if_neg (by omega), if_pos (by omega)]
    rw [List.cons_append, List.singleton_append,
      decodeUtf8From_two start rest hlead (by omega), payload_ofNat, hb, hc (by omega)]
    rfl
  rw [if_neg h₂]
  by_cases h₃ : v ≤ 65535
  · rw [if_pos h₃]
    obtain ⟨lo, hi, hlead, hlo, hhi⟩ := leadByte_three (by omega) h₃ hv
    have hb := toNat_ofNat_of_lt (n := v / 4096 % 16 + 224) (by omega)
    have hb₁ := toNat_ofNat_of_lt (n := v / 64 % 64 + 128) (by omega)
    rw [← hb] at hlead
    rw [List.cons_append, List.cons_append, List.singleton_append,
      decodeUtf8From_three start rest hlead (by omega) (continues_ofNat v), payload_ofNat,
      payload_ofNat, hb, hc (by omega)]
    rfl
  · rw [if_neg h₃]
    obtain ⟨lo, hi, hlead, hlo, hhi⟩ := leadByte_four (by omega) hv
    unfold Nat.isValidChar at hv
    have hb := toNat_ofNat_of_lt (n := v / 262144 % 8 + 240) (by omega)
    have hb₁ := toNat_ofNat_of_lt (n := v / 4096 % 64 + 128) (by omega)
    rw [← hb] at hlead
    rw [List.cons_append, List.cons_append, List.cons_append, List.singleton_append,
      decodeUtf8From_four start rest hlead (by omega) (continues_ofNat _) (continues_ofNat v),
      payload_ofNat, payload_ofNat, payload_ofNat, hb, hc (by omega)]
    rfl

theorem decodeUtf8From_encodeUtf8 (start : Nat) (cs : List Char) :
    decodeUtf8From start (encodeUtf8 cs) = .ok cs := by
  induction cs generalizing start with
  | nil => rfl
  | cons c cs ih =>
    rw [encodeUtf8, List.flatMap_cons, decodeUtf8From_char]
    change (c :: ·) <$> decodeUtf8From _ (encodeUtf8 cs) = _
    rw [ih]
    rfl

theorem decodeUtf8_encodeUtf8 (cs : List Char) : decodeUtf8 (encodeUtf8 cs) = .ok cs :=
  decodeUtf8From_encodeUtf8 0 cs

section Canonical

variable {b b₁ b₂ b₃ : UInt8} {n count lo hi v : Nat}

theorem val_ofNat (h : v.isValidChar) : (Char.ofNat v).val.toNat = v := by
  rw [Char.ofNat, dif_pos h]
  rfl

theorem lt_of_leadByte_single (h : leadByte n = .single) : n < 0x80 := by
  unfold leadByte at h
  repeat' split at h
  all_goals
    cases h
  assumption

theorem leadByte_followed (h : leadByte n = .followed count lo hi) :
    0x80 ≤ lo ∧ hi ≤ 0xbf ∧
      (count = 1 ∧ 0xc2 ≤ n ∧ n < 0xe0 ∨
        count = 2 ∧ 0xe0 ≤ n ∧ n < 0xf0 ∧ (n = 0xe0 → 0xa0 ≤ lo) ∧ (n = 0xed → hi ≤ 0x9f) ∨
        count = 3 ∧ 0xf0 ≤ n ∧ n ≤ 0xf4 ∧ (n = 0xf0 → 0x90 ≤ lo) ∧ (n = 0xf4 → hi ≤ 0x8f)) := by
  unfold leadByte at h
  repeat' split at h
  all_goals
    cases h
  all_goals omega

theorem ofNat_eq (h : n = b.toNat) : UInt8.ofNat n = b := h ▸ UInt8.ofNat_toNat

theorem toNat_of_continues (h : continues b = true) :
    b.toNat = payload b + 128 ∧ payload b < 64 := by
  rw [continues, Bool.and_eq_true, decide_eq_true_eq, decide_eq_true_eq] at h
  unfold payload
  omega

theorem utf8EncodeChar_single (h : leadByte b.toNat = .single) :
    String.utf8EncodeChar (Char.ofNat b.toNat) = [b] := by
  have hb := lt_of_leadByte_single h
  have hvalid : b.toNat.isValidChar := .inl (by omega)
  rw [String.utf8EncodeChar.eq_1, val_ofNat hvalid, if_pos (by omega), UInt8.ofNat_toNat]

theorem utf8EncodeChar_two (h : leadByte b.toNat = .followed 1 lo hi)
    (h₁ : ¬(b₁.toNat < lo ∨ hi < b₁.toNat)) :
    String.utf8EncodeChar (Char.ofNat (b.toNat % 0x20 * 0x40 + payload b₁)) = [b, b₁] := by
  have hlead := leadByte_followed h
  have hpayload : payload b₁ = b₁.toNat % 0x40 := rfl
  have hvalid : (b.toNat % 0x20 * 0x40 + payload b₁).isValidChar := .inl (by omega)
  rw [String.utf8EncodeChar.eq_1, val_ofNat hvalid, if_neg (by omega), if_pos (by omega),
    ofNat_eq (b := b) (by omega), ofNat_eq (b := b₁) (by omega)]

theorem utf8EncodeChar_three (h : leadByte b.toNat = .followed 2 lo hi)
    (h₁ : ¬(b₁.toNat < lo ∨ hi < b₁.toNat)) (h₂ : continues b₂ = true) :
    String.utf8EncodeChar
      (Char.ofNat (b.toNat % 0x10 * 0x1000 + payload b₁ * 0x40 + payload b₂)) = [b, b₁, b₂] := by
  have hlead := leadByte_followed h
  have hpayload : payload b₁ = b₁.toNat % 0x40 := rfl
  have hb₂ := toNat_of_continues h₂
  have hvalid : (b.toNat % 0x10 * 0x1000 + payload b₁ * 0x40 + payload b₂).isValidChar := by
    unfold Nat.isValidChar
    omega
  rw [String.utf8EncodeChar.eq_1, val_ofNat hvalid, if_neg (by omega), if_neg (by omega),
    if_pos (by omega), ofNat_eq (b := b) (by omega), ofNat_eq (b := b₁) (by omega),
    ofNat_eq (b := b₂) (by omega)]

theorem utf8EncodeChar_four (h : leadByte b.toNat = .followed count lo hi) (hcount : ¬count = 1)
    (hcount' : ¬count = 2) (h₁ : ¬(b₁.toNat < lo ∨ hi < b₁.toNat)) (h₂ : continues b₂ = true)
    (h₃ : continues b₃ = true) :
    String.utf8EncodeChar (Char.ofNat
      (b.toNat % 8 * 0x40000 + payload b₁ * 0x1000 + payload b₂ * 0x40 + payload b₃)) =
        [b, b₁, b₂, b₃] := by
  have hlead := leadByte_followed h
  have hpayload : payload b₁ = b₁.toNat % 0x40 := rfl
  have hb₂ := toNat_of_continues h₂
  have hb₃ := toNat_of_continues h₃
  have hvalid : (b.toNat % 8 * 0x40000 + payload b₁ * 0x1000 + payload b₂ * 0x40 +
      payload b₃).isValidChar := .inr (by omega)
  rw [String.utf8EncodeChar.eq_1, val_ofNat hvalid, if_neg (by omega), if_neg (by omega),
    if_neg (by omega), ofNat_eq (b := b) (by omega), ofNat_eq (b := b₁) (by omega),
    ofNat_eq (b := b₂) (by omega), ofNat_eq (b := b₃) (by omega)]

theorem encodeUtf8_of_decodeUtf8From {start : Nat} {bytes : List UInt8} {cs : List Char}
    (h : decodeUtf8From start bytes = .ok cs) : encodeUtf8 cs = bytes := by
  fun_induction decodeUtf8From start bytes generalizing cs with
  | case1 =>
    cases h
    rfl
  | case2 | case4 | case5 | case7 | case8 | case10 | case11 => cases h
  | case3 start b rest hlead ih =>
    obtain ⟨cs, hcs, rfl⟩ := map_eq_ok_iff.1 h
    change String.utf8EncodeChar (Char.ofNat _) ++ encodeUtf8 cs = _
    rw [utf8EncodeChar_single hlead, ih hcs]
    rfl
  | case6 start b lo hi b₁ rest h₁ c hlead =>
    rename_i ih
    obtain ⟨cs, hcs, rfl⟩ := map_eq_ok_iff.1 h
    change String.utf8EncodeChar (Char.ofNat _) ++ encodeUtf8 cs = _
    rw [utf8EncodeChar_two hlead h₁, ih hcs]
    rfl
  | case9 start b lo hi b₁ h₁ b₂ rest h₂ c hlead =>
    rename_i ih
    rw [Bool.not_eq_true', Bool.not_eq_false] at h₂
    obtain ⟨cs, hcs, rfl⟩ := map_eq_ok_iff.1 h
    change String.utf8EncodeChar (Char.ofNat _) ++ encodeUtf8 cs = _
    rw [utf8EncodeChar_three hlead h₁ h₂, ih hcs]
    rfl
  | case12 start b count lo hi hlead b₁ h₁ hcount b₂ h₂ hcount' b₃ rest h₃ c =>
    rename_i ih
    rw [Bool.not_eq_true', Bool.not_eq_false] at h₂ h₃
    obtain ⟨cs, hcs, rfl⟩ := map_eq_ok_iff.1 h
    change String.utf8EncodeChar (Char.ofNat _) ++ encodeUtf8 cs = _
    rw [utf8EncodeChar_four hlead hcount hcount' h₁ h₂ h₃, ih hcs]
    rfl

theorem encodeUtf8_of_decodeUtf8 {bytes : List UInt8} {cs : List Char}
    (h : decodeUtf8 bytes = .ok cs) : encodeUtf8 cs = bytes :=
  encodeUtf8_of_decodeUtf8From h

end Canonical

end GuildPolicy.Text
