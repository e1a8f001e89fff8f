import GuildPolicy.Proofs.Text.Utf8
import GuildPolicy.Snapshot.Format
import Mathlib.Algebra.Group.Nat.Defs

namespace GuildPolicy

namespace Format

variable {α β κ ν : Type}

/-- Writing takes at least a byte, and reading what was written gives it back and leaves what
follows, if what was written has a length of 64 bits. -/
structure Lossless (f : Format α) : Prop where
  length_pos : ∀ a, 0 < (f.write a).length
  read_write : ∀ a rest, (f.write a).length < UInt64.size →
    f.read (f.write a ++ rest) = .ok (a, rest)

theorem takeBytes_append (taken rest : List UInt8) :
    takeBytes taken.length (taken ++ rest) = .ok (taken, rest) := by
  induction taken with
  | nil => rfl
  | cons b taken ih => rw [List.length_cons, List.cons_append, takeBytes, ih]

@[simp] theorem length_digits (width n : Nat) : (digits width n).length = width := by
  induction width generalizing n with
  | zero => rfl
  | succ width ih => rw [digits, List.length_cons, ih]

theorem ofDigits_digits {width n : Nat} (h : n < 256 ^ width) : ofDigits (digits width n) = n := by
  induction width generalizing n with
  | zero =>
    rw [Nat.pow_zero, Nat.lt_one_iff] at h
    exact h.symm
  | succ width ih =>
    have hhigh : n / 256 < 256 ^ width := by
      rw [Nat.pow_succ] at h
      exact Nat.div_lt_of_lt_mul (by rwa [Nat.mul_comm])
    rw [digits, ofDigits, ih hhigh, UInt8.toNat_ofNat']
    exact Nat.mod_add_div n 256

theorem read_number {width n : Nat} (h : n < 256 ^ width) (rest : List UInt8) :
    (number width).read ((number width).write n ++ rest) = .ok (n, rest) := by
  have ht := takeBytes_append (digits width n) rest
  rw [length_digits] at ht
  simp only [number, ht, ofDigits_digits h]

theorem read_length {n : Nat} (h : n < UInt64.size) (rest : List UInt8) :
    length.read (length.write n ++ rest) = .ok (n, rest) :=
  read_number h rest

theorem length_write_length (n : Nat) : (length.write n).length = 8 := length_digits 8 n

theorem read_convert {f : Format α} {pack : β → α} {unpack : α → β} {b : β} {rest : List UInt8}
    (h : f.read (f.write (pack b) ++ rest) = .ok (pack b, rest)) (hb : unpack (pack b) = b) :
    (f.convert pack unpack).read ((f.convert pack unpack).write b ++ rest) = .ok (b, rest) := by
  simp only [convert, h, hb]

theorem Lossless.convert {f : Format α} (hf : f.Lossless) {pack : β → α} {unpack : α → β}
    (h : ∀ b, unpack (pack b) = b) : (f.convert pack unpack).Lossless where
  length_pos b := hf.length_pos (pack b)
  read_write b rest hlen := read_convert (hf.read_write (pack b) rest hlen) (h b)

theorem Lossless.refine {f : Format α} (hf : f.Lossless) {pack : β → α}
    {unpack : α → Except DecodeFault β} (h : ∀ b, unpack (pack b) = .ok b) :
    (f.refine pack unpack).Lossless where
  length_pos b := hf.length_pos (pack b)
  read_write b rest hlen := by
    have hr := hf.read_write (pack b) rest hlen
    simp only [Format.refine, hr, h]

theorem Lossless.pair {f : Format α} {g : Format β} (hf : f.Lossless) (hg : g.Lossless) :
    (f.pair g).Lossless where
  length_pos v := by
    change 0 < (f.write v.1 ++ g.write v.2).length
    rw [List.length_append]
    exact Nat.add_pos_left (hf.length_pos v.1) _
  read_write v rest hlen := by
    change (f.write v.1 ++ g.write v.2).length < _ at hlen
    rw [List.length_append] at hlen
    have h₁ := hf.read_write v.1 (g.write v.2 ++ rest) (by omega)
    have h₂ := hg.read_write v.2 rest (by omega)
    simp only [Format.pair, List.append_assoc, h₁, h₂]

theorem Lossless.option {f : Format α} (hf : f.Lossless) : (option f).Lossless where
  length_pos
    | none => Nat.zero_lt_one
    | some a => Nat.succ_pos _
  read_write
    | none, rest, _ => rfl
    | some a, rest, hlen => by
      have h := hf.read_write a rest (Nat.lt_of_succ_lt hlen)
      simp only [Format.option, List.cons_append, h]
      rfl

theorem Lossless.length_le_flatMap {f : Format α} (hf : f.Lossless) (as : List α) :
    as.length ≤ (as.flatMap f.write).length := by
  induction as with
  | nil => exact Nat.le_refl 0
  | cons a as ih =>
    have ha := hf.length_pos a
    rw [List.flatMap_cons, List.length_append, List.length_cons]
    omega

theorem Lossless.readMany {f : Format α} (hf : f.Lossless) (as : List α) (rest : List UInt8)
    (h : (as.flatMap f.write).length < UInt64.size) :
    f.readMany as.length (as.flatMap f.write ++ rest) = .ok (as, rest) := by
  induction as with
  | nil => rfl
  | cons a as ih =>
    rw [List.flatMap_cons, List.length_append] at h
    rw [List.length_cons, List.flatMap_cons, List.append_assoc, Format.readMany,
      hf.read_write a _ (by omega)]
    dsimp only
    rw [ih (by omega)]

theorem Lossless.list {f : Format α} (hf : f.Lossless) : (list f).Lossless where
  length_pos as := by
    change 0 < (length.write as.length ++ as.flatMap f.write).length
    rw [List.length_append, length_write_length]
    omega
  read_write as rest hlen := by
    change (length.write as.length ++ as.flatMap f.write).length < _ at hlen
    rw [List.length_append] at hlen
    have hle := hf.length_le_flatMap as
    have h := read_length (n := as.length) (by omega) (as.flatMap f.write ++ rest)
    simp only [Format.list, List.append_assoc, h]
    exact hf.readMany as rest (by omega)

theorem Lossless.table [DecidableEq κ] {f : Format κ} {g : Format ν} (hf : f.Lossless)
    (hg : g.Lossless) : (table f g).Lossless :=
  (hf.pair hg).list.convert Table.ofList_entries

theorem lossless_byteString : byteString.Lossless where
  length_pos bytes := by
    change 0 < (length.write bytes.length ++ bytes).length
    rw [List.length_append, length_write_length]
    omega
  read_write bytes rest hlen := by
    change (length.write bytes.length ++ bytes).length < _ at hlen
    rw [List.length_append] at hlen
    have h := read_length (n := bytes.length) (by omega) (bytes ++ rest)
    simp only [byteString, List.append_assoc, h]
    exact takeBytes_append bytes rest

theorem lossless_text : text.Lossless := by
  refine lossless_byteString.refine fun s => ?_
  rw [Text.decodeUtf8_encodeUtf8]
  dsimp only
  rw [String.ofList_toList]

theorem lossless_word : word.Lossless where
  length_pos w := by
    change 0 < (digits 4 w.toNat).length
    rw [length_digits]
    exact Nat.zero_lt_succ 3
  read_write w rest _ := read_convert (read_number w.toNat_lt rest) UInt32.ofNat_toNat

theorem lossless_mask : mask.Lossless where
  length_pos m := by
    change 0 < (digits 16 m.toNat).length
    rw [length_digits]
    exact Nat.zero_lt_succ 15
  read_write m rest _ := read_convert (read_number m.isLt rest) (BitVec.ofNat_toNat 128 m)

end Format

end GuildPolicy
