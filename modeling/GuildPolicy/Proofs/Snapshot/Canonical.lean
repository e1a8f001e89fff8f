import GuildPolicy.Proofs.Snapshot.Boundaries
import GuildPolicy.Proofs.Snapshot.Records

namespace GuildPolicy

namespace Format

variable {α β κ ν ρ σ : Type}

/-- Whatever is read is what would be written for it. -/
def Canonical (f : Format α) : Prop :=
  ∀ ⦃bytes a rest⦄, f.read bytes = .ok (a, rest) → bytes = f.write a ++ rest

section Canonical

theorem eq_append_of_takeBytes {n : Nat} {bytes taken rest : List UInt8}
    (h : takeBytes n bytes = .ok (taken, rest)) : bytes = taken ++ rest ∧ taken.length = n := by
  induction n generalizing bytes taken with
  | zero =>
    cases h
    exact ⟨rfl, rfl⟩
  | succ n ih =>
    cases bytes with
    | nil => cases h
    | cons b bytes =>
      rw [takeBytes] at h
      split at h
      · next htake =>
        cases h
        obtain ⟨rfl, hlen⟩ := ih htake
        exact ⟨rfl, congrArg (· + 1) hlen⟩
      · cases h

theorem digits_ofDigits (bytes : List UInt8) : digits bytes.length (ofDigits bytes) = bytes := by
  induction bytes with
  | nil => rfl
  | cons b bytes ih =>
    have hb := b.toNat_lt
    have hlow : UInt8.ofNat (b.toNat + 256 * ofDigits bytes) = b := by
      apply UInt8.toNat_inj.1
      rw [UInt8.toNat_ofNat']
      omega
    have hhigh : (b.toNat + 256 * ofDigits bytes) / 256 = ofDigits bytes := by omega
    rw [List.length_cons, digits, ofDigits, hlow, hhigh, ih]

theorem ofDigits_lt (bytes : List UInt8) : ofDigits bytes < 256 ^ bytes.length := by
  induction bytes with
  | nil => exact Nat.one_pos
  | cons b bytes ih =>
    have hb := b.toNat_lt
    rw [ofDigits, List.length_cons, Nat.pow_succ]
    omega

theorem number_of_read {width n : Nat} {bytes rest : List UInt8}
    (h : (number width).read bytes = .ok (n, rest)) :
    bytes = (number width).write n ++ rest ∧ n < 256 ^ width := by
  rw [number_read] at h
  obtain ⟨⟨taken, rest⟩, htake, h⟩ := bind_eq_ok_iff.1 h
  cases h
  obtain ⟨rfl, rfl⟩ := eq_append_of_takeBytes htake
  exact ⟨congrArg (· ++ rest) (digits_ofDigits taken).symm, ofDigits_lt taken⟩

variable {f : Format α} {g : Format β}

theorem canonical_number (width : Nat) : (number width).Canonical :=
  fun _ _ _ h => (number_of_read h).1

/-- Only values that can be read need come back from their conversion. -/
theorem Canonical.convert_of_read (hf : f.Canonical) {pack : β → α} {unpack : α → β}
    (h : ∀ {bytes a rest}, f.read bytes = .ok (a, rest) → pack (unpack a) = a) :
    (f.convert pack unpack).Canonical := by
  intro bytes b _ hread
  rw [convert_read] at hread
  obtain ⟨⟨a, rest⟩, ha, hread⟩ := bind_eq_ok_iff.1 hread
  cases hread
  change bytes = f.write (pack (unpack a)) ++ rest
  rw [h ha]
  exact hf ha

theorem Canonical.convert (hf : f.Canonical) {pack : β → α} {unpack : α → β}
    (h : ∀ a, pack (unpack a) = a) : (f.convert pack unpack).Canonical :=
  hf.convert_of_read fun _ => h _

theorem Canonical.refine (hf : f.Canonical) {pack : β → α} {unpack : α → Except DecodeFault β}
    (h : ∀ {a b}, unpack a = .ok b → pack b = a) : (f.refine pack unpack).Canonical := by
  intro bytes b _ hread
  rw [refine_read] at hread
  obtain ⟨⟨a, rest⟩, ha, hread⟩ := bind_eq_ok_iff.1 hread
  obtain ⟨_, hb, hread⟩ := bind_eq_ok_iff.1 hread
  cases hread
  change bytes = f.write (pack b) ++ rest
  rw [h hb]
  exact hf ha

theorem Canonical.pair (hf : f.Canonical) (hg : g.Canonical) : (f.pair g).Canonical := by
  intro bytes _ _ hread
  rw [pair_read] at hread
  obtain ⟨⟨a, rest'⟩, ha, hread⟩ := bind_eq_ok_iff.1 hread
  obtain ⟨⟨b, rest⟩, hb, hread⟩ := bind_eq_ok_iff.1 hread
  cases hread
  change bytes = f.write a ++ g.write b ++ rest
  rw [List.append_assoc, ← hg hb]
  exact hf ha

theorem Canonical.option (hf : f.Canonical) : (option f).Canonical := by
  intro bytes v rest hread
  cases bytes with
  | nil => cases hread
  | cons tag bytes =>
    simp only [Format.option] at hread
    split at hread
    · next htag =>
      cases hread
      rw [htag]
      rfl
    · split at hread
      · next htag =>
        split at hread
        · next ha =>
          cases hread
          change tag :: bytes = 1 :: (f.write _ ++ _)
          rw [htag, ← hf ha]
        · cases hread
      · cases hread

theorem Canonical.readMany (hf : f.Canonical) {n : Nat} {bytes rest : List UInt8} {as : List α}
    (h : f.readMany n bytes = .ok (as, rest)) :
    bytes = as.flatMap f.write ++ rest ∧ as.length = n := by
  induction n generalizing bytes as with
  | zero =>
    cases h
    exact ⟨rfl, rfl⟩
  | succ n ih =>
    rw [readMany_succ] at h
    obtain ⟨⟨a, rest'⟩, ha, h⟩ := bind_eq_ok_iff.1 h
    obtain ⟨⟨as', rest''⟩, has, h⟩ := bind_eq_ok_iff.1 h
    cases h
    obtain ⟨hrest, hlen⟩ := ih has
    refine ⟨?_, congrArg (· + 1) hlen⟩
    rw [List.flatMap_cons, List.append_assoc, ← hrest]
    exact hf ha

theorem Canonical.list (hf : f.Canonical) : (list f).Canonical := by
  intro bytes as rest hread
  rw [list_read] at hread
  obtain ⟨⟨n, rest'⟩, hn, hread⟩ := bind_eq_ok_iff.1 hread
  obtain ⟨hrest, rfl⟩ := hf.readMany hread
  change bytes = length.write as.length ++ as.flatMap f.write ++ rest
  rw [List.append_assoc, ← hrest]
  exact canonical_number 8 hn

theorem canonical_byteString : byteString.Canonical := by
  intro bytes taken rest hread
  rw [byteString_read] at hread
  obtain ⟨⟨n, rest'⟩, hn, hread⟩ := bind_eq_ok_iff.1 hread
  obtain ⟨hrest, rfl⟩ := eq_append_of_takeBytes hread
  change bytes = length.write taken.length ++ taken ++ rest
  rw [List.append_assoc, ← hrest]
  exact canonical_number 8 hn

theorem canonical_text : text.Canonical := by
  refine canonical_byteString.refine fun {bytes s} h => ?_
  split at h
  · next cs hcs =>
    cases h
    rw [String.toList_ofList]
    exact Text.encodeUtf8_of_decodeUtf8 hcs
  · cases h

theorem canonical_word : word.Canonical :=
  (canonical_number 4).convert_of_read fun h => UInt32.toNat_ofNat_of_lt' (number_of_read h).2

theorem canonical_mask : mask.Canonical :=
  (canonical_number 16).convert_of_read fun h => by
    rw [BitVec.toNat_ofNat]
    exact Nat.mod_eq_of_lt (number_of_read h).2

theorem canonical_kind : kind.Canonical := by
  refine canonical_word.refine fun {n k} h => ?_
  split at h
  · next hn =>
    cases h
    exact hn.symm
  · split at h
    · next hn =>
      cases h
      exact hn.symm
    · cases h

theorem canonical_header : header.Canonical := canonical_kind.pair canonical_word

theorem canonical_entries {key : Format κ} {value : Format ν} (hkey : key.Canonical)
    (hvalue : value.Canonical) : (entries key value).Canonical :=
  (hkey.pair hvalue).list

theorem canonical_targetRecord : targetRecord.Canonical :=
  canonical_entries canonical_word (canonical_entries canonical_word canonical_mask)

theorem canonical_moduleRecord : moduleRecord.Canonical :=
  (canonical_text.pair <| canonical_text.option.pair <| canonical_word.pair <|
    canonical_text.list.pair <| canonical_mask.list.pair <| canonical_mask.list.pair <|
    canonical_targetRecord.pair canonical_targetRecord).convert fun _ => rfl

theorem canonical_typePair : typePair.Canonical :=
  (canonical_word.pair canonical_word).convert fun _ => rfl

theorem canonical_vectorRecord : vectorRecord.Canonical :=
  (canonical_word.pair <| (canonical_entries canonical_word canonical_text).pair <|
    (canonical_entries canonical_text canonical_word).pair <|
    (canonical_entries canonical_word canonical_mask).pair <|
    (canonical_entries canonical_word canonical_mask).pair <|
    (canonical_entries canonical_typePair canonical_mask).pair <|
    canonical_entries canonical_typePair canonical_mask).convert fun _ => rfl

theorem canonical_guildRecord : guildRecord.Canonical :=
  (canonical_vectorRecord.pair (canonical_entries canonical_text canonical_moduleRecord)).convert
    fun _ => rfl

end Canonical

/-- Two formats of the same bytes: the one of records, and the one of what they stand for. What a
record stands for is written like the record itself if no key is listed twice. -/
structure Tabulates (record : Format ρ) (f : Format α) (value : ρ → α) (Distinct : ρ → Prop) :
    Prop where
  read_eq : ∀ bytes, f.read bytes = record.read bytes >>= fun r => .ok (value r.1, r.2)
  write_eq : ∀ r, Distinct r → f.write (value r) = record.write r

section Tabulates

variable {record : Format ρ} {f : Format α} {value : ρ → α} {Distinct : ρ → Prop}

theorem Tabulates.refl (f : Format α) : Tabulates f f id fun _ => True where
  read_eq bytes := by
    cases f.read bytes with
    | error fault => rfl
    | ok r => rfl
  write_eq _ _ := rfl

theorem Tabulates.pair {record' : Format σ} {g : Format β} {value' : σ → β}
    {Distinct' : σ → Prop} (hf : Tabulates record f value Distinct)
    (hg : Tabulates record' g value' Distinct') :
    Tabulates (record.pair record') (f.pair g) (fun r => (value r.1, value' r.2))
      fun r => Distinct r.1 ∧ Distinct' r.2 where
  read_eq bytes := by
    rw [pair_read, pair_read, hf.read_eq]
    cases record.read bytes with
    | error fault => rfl
    | ok r =>
      change (g.read r.2 >>= _) = ((record'.read r.2 >>= _) >>= _)
      rw [hg.read_eq]
      cases record'.read r.2 with
      | error fault => rfl
      | ok r' => rfl
  write_eq r h := by
    change f.write (value r.1) ++ g.write (value' r.2) = record.write r.1 ++ record'.write r.2
    rw [hf.write_eq _ h.1, hg.write_eq _ h.2]

theorem Tabulates.list (hf : Tabulates record f value Distinct) :
    Tabulates (list record) (list f) (List.map value) fun rs => ∀ r ∈ rs, Distinct r where
  read_eq bytes := by
    have hmany (n : Nat) (bytes : List UInt8) : f.readMany n bytes =
        record.readMany n bytes >>= fun r => .ok (r.1.map value, r.2) := by
      induction n generalizing bytes with
      | zero => rfl
      | succ n ih =>
        rw [readMany_succ, readMany_succ, hf.read_eq]
        cases record.read bytes with
        | error fault => rfl
        | ok r =>
          change (f.readMany n r.2 >>= _) = ((record.readMany n r.2 >>= _) >>= _)
          rw [ih]
          cases record.readMany n r.2 with
          | error fault => rfl
          | ok r' => rfl
    rw [list_read, list_read]
    cases length.read bytes with
    | error fault => rfl
    | ok r => exact hmany r.1 r.2
  write_eq rs h := by
    have hmany : (rs.map value).flatMap f.write = rs.flatMap record.write := by
      induction rs with
      | nil => rfl
      | cons r rs ih =>
        obtain ⟨hr, hrs⟩ := List.forall_mem_cons.1 h
        rw [List.map_cons, List.flatMap_cons, List.flatMap_cons, hf.write_eq r hr, ih hrs]
    change length.write (rs.map value).length ++ (rs.map value).flatMap f.write =
      length.write rs.length ++ rs.flatMap record.write
    rw [List.length_map, hmany]

theorem Tabulates.table [DecidableEq κ] (key : Format κ) (hf : Tabulates record f value Distinct) :
    Tabulates (entries key record) (table key f)
      (fun l : List (κ × ρ) => .ofList (l.map fun e : κ × ρ => (e.1, value e.2)))
      fun l => DistinctKeys l ∧ ∀ e ∈ l, Distinct e.2 where
  read_eq bytes := by
    rw [Format.table, convert_read, ((Tabulates.refl key).pair hf).list.read_eq, entries]
    cases ((key.pair record).list).read bytes with
    | error fault => rfl
    | ok r => rfl
  write_eq l h := by
    obtain ⟨hkeys, hvalues⟩ := h
    have hnodup : ((Table.empty.entries ++
        l.map fun e : κ × ρ => (e.1, value e.2)).map Prod.fst).Nodup := by
      rw [Table.entries_empty, List.nil_append, List.map_map]
      exact hkeys
    have hentries : (Table.ofList (l.map fun e : κ × ρ => (e.1, value e.2))).entries =
        l.map fun e => (e.1, value e.2) := Table.entries_foldl_insert .empty hnodup
    change ((key.pair f).list).write (Table.ofList _).entries = _
    rw [hentries]
    exact ((Tabulates.refl key).pair hf).list.write_eq l fun e he => ⟨trivial, hvalues e he⟩

theorem Tabulates.plain [DecidableEq κ] (key : Format κ) (item : Format ν) :
    Tabulates (entries key item) (Format.table key item) Table.ofList DistinctKeys where
  read_eq bytes := by
    rw [(Tabulates.table key (.refl item)).read_eq]
    simp only [id, List.map_id']
  write_eq l h := by
    have hl := (Tabulates.table key (.refl item)).write_eq l ⟨h, fun _ _ => trivial⟩
    simp only [id, List.map_id'] at hl
    exact hl

theorem Tabulates.convert {value' : σ → β} {Distinct' : σ → Prop} {pack : β → α} {unpack : α → β}
    {pack' : σ → ρ} {unpack' : ρ → σ} (hf : Tabulates record f value Distinct)
    (hunpack : ∀ r, unpack (value r) = value' (unpack' r))
    (hpack : ∀ r, pack (value' r) = value (pack' r))
    (hdistinct : ∀ r, Distinct' r → Distinct (pack' r)) :
    Tabulates (record.convert pack' unpack') (f.convert pack unpack) value' Distinct' where
  read_eq bytes := by
    rw [convert_read, convert_read, hf.read_eq]
    cases record.read bytes with
    | error fault => rfl
    | ok r => exact congrArg (fun b => Except.ok (b, r.2)) (hunpack r.1)
  write_eq r h := by
    change f.write (pack (value' r)) = record.write (pack' r)
    rw [hpack, hf.write_eq _ (hdistinct r h)]

theorem tabulates_targetRecord :
    Tabulates targetRecord targetTable TargetRecord.table TargetRecord.Distinct :=
  .table word (.plain word mask)

theorem tabulates_moduleRecord :
    Tabulates moduleRecord module ModuleRecord.module ModuleRecord.Distinct :=
  ((Tabulates.refl text).pair <| (Tabulates.refl (option text)).pair <|
    (Tabulates.refl word).pair <| (Tabulates.refl (list text)).pair <|
    (Tabulates.refl (list mask)).pair <| (Tabulates.refl (list mask)).pair <|
    tabulates_targetRecord.pair tabulates_targetRecord).convert (fun _ => rfl) (fun _ => rfl)
    fun _ h => ⟨trivial, trivial, trivial, trivial, trivial, trivial, h.allowOn, h.denyOn⟩

theorem tabulates_vectorRecord :
    Tabulates vectorRecord vector VectorRecord.vector VectorRecord.Distinct :=
  ((Tabulates.refl word).pair <| (Tabulates.plain word text).pair <|
    (Tabulates.plain text word).pair <| (Tabulates.plain word mask).pair <|
    (Tabulates.plain word mask).pair <| (Tabulates.plain typePair mask).pair <|
    Tabulates.plain typePair mask).convert (fun _ => rfl) (fun _ => rfl)
    fun _ h => ⟨trivial, h.names, h.ids, h.allow, h.deny, h.allowOn, h.denyOn⟩

theorem tabulates_guildRecord :
    Tabulates guildRecord guild GuildRecord.snapshot GuildRecord.Distinct :=
  (tabulates_vectorRecord.pair (.table text tabulates_moduleRecord)).convert (fun _ => rfl)
    (fun _ => rfl) fun _ h => ⟨h.vector, h.modules, h.each⟩

end Tabulates

end Format

section Snapshots

variable {α ρ : Type} {kind : SnapshotKind} {body : Format α} {record : Format ρ} {value : ρ → α}
variable {Distinct : ρ → Prop} {bytes : List UInt8} {a : α}

/-- Bytes that are read spell a record, and the value read is what the record stands for. -/
theorem spells_of_decodeSnapshot (ht : Format.Tabulates record body value Distinct)
    (h : decodeSnapshot kind body bytes = .ok a) :
    ∃ version r, record.Spells bytes kind version r ∧ a = value r := by
  obtain ⟨version, rest, hheader, _, hbody⟩ := decodeSnapshot_eq_ok_iff.1 h
  rw [ht.read_eq] at hbody
  obtain ⟨⟨r, rest'⟩, hr, hbody⟩ := bind_eq_ok_iff.1 hbody
  cases hbody
  refine ⟨version, r, ?_, rfl⟩
  rw [Format.Spells, Format.pair_read]
  exact bind_eq_ok_iff.2 ⟨_, hheader, bind_eq_ok_iff.2 ⟨_, hr, rfl⟩⟩

theorem encodeSnapshot_of_spells (ht : Format.Tabulates record body value Distinct)
    (hc : record.Canonical) {r : ρ} (h : record.Spells bytes kind currentVersion r)
    (hdistinct : Distinct r) : encodeSnapshot kind body (value r) = bytes := by
  have hbytes := Format.canonical_header.pair hc h
  rw [List.append_nil] at hbytes
  rw [encodeSnapshot, ht.write_eq r hdistinct]
  exact hbytes.symm

theorem encodeSnapshot_of_decodeSnapshot (ht : Format.Tabulates record body value Distinct)
    (hc : record.Canonical) (h : decodeSnapshot kind body bytes = .ok a) {r : ρ}
    (hr : record.Spells bytes kind currentVersion r) (hdistinct : Distinct r) :
    encodeSnapshot kind body a = bytes := by
  obtain ⟨version', r', hr', rfl⟩ := spells_of_decodeSnapshot ht h
  cases hr'.symm.trans hr
  exact encodeSnapshot_of_spells ht hc hr hdistinct

end Snapshots

/-- Bytes that are accepted spell a record of what is read from them. If the version is the newest
and the record lists every key once, at every level, then writing what was read gives back the
bytes; so no other bytes of that kind are read as the same value. -/
theorem encode_decode :
    (∀ bytes m, decodeModule bytes = .ok m →
      ∃ version r, Format.moduleRecord.Spells bytes .module version r ∧ m = r.module ∧
        (version = currentVersion → r.Distinct → encodeModule m = bytes ∧
          ∀ bytes' r', decodeModule bytes' = .ok m →
            Format.moduleRecord.Spells bytes' .module currentVersion r' → r'.Distinct →
              bytes' = bytes)) ∧
    ∀ bytes s, decodeGuild bytes = .ok s →
      ∃ version r, Format.guildRecord.Spells bytes .guild version r ∧ s = r.snapshot ∧
        (version = currentVersion → r.Distinct → encodeGuild s = bytes ∧
          ∀ bytes' r', decodeGuild bytes' = .ok s →
            Format.guildRecord.Spells bytes' .guild currentVersion r' → r'.Distinct →
              bytes' = bytes) := by
  constructor
  · intro bytes m hm
    have hback {bytes r} (hm : decodeModule bytes = .ok m) :=
      encodeSnapshot_of_decodeSnapshot (r := r) Format.tabulates_moduleRecord
        Format.canonical_moduleRecord (decodeModule_eq_ok_iff.1 hm).1
    obtain ⟨version, r, hr, rfl⟩ :=
      spells_of_decodeSnapshot Format.tabulates_moduleRecord (decodeModule_eq_ok_iff.1 hm).1
    refine ⟨version, r, hr, rfl, fun hversion hdistinct => ?_⟩
    subst hversion
    have hbytes : encodeModule r.module = bytes := hback hm hr hdistinct
    exact ⟨hbytes, fun _ _ hm' hr' h' => (hback hm' hr' h').symm.trans hbytes⟩
  · intro bytes s hs
    have hback {bytes r} (hs : decodeGuild bytes = .ok s) :=
      encodeSnapshot_of_decodeSnapshot (r := r) Format.tabulates_guildRecord
        Format.canonical_guildRecord (decodeGuild_eq_ok_iff.1 hs).1
    obtain ⟨version, r, hr, rfl⟩ :=
      spells_of_decodeSnapshot Format.tabulates_guildRecord (decodeGuild_eq_ok_iff.1 hs).1
    refine ⟨version, r, hr, rfl, fun hversion hdistinct => ?_⟩
    subst hversion
    have hbytes : encodeGuild r.snapshot = bytes := hback hs hr hdistinct
    exact ⟨hbytes, fun _ _ hs' hr' h' => (hback hs' hr' h').symm.trans hbytes⟩

/-- A module of one type, which is allowed two permissions on everything and one on itself. -/
def oneType : ModuleRecord := ⟨"m", none, 1, ["a"], [3], [], [(0, [(0, 1)])], []⟩

def oneTypeBytes : List UInt8 :=
  [1, 0, 0, 0, 0, 0, 0, 0, 109] ++ [0] ++ [1, 0, 0, 0] ++
    ([1, 0, 0, 0, 0, 0, 0, 0] ++ [1, 0, 0, 0, 0, 0, 0, 0, 97]) ++
    ([1, 0, 0, 0, 0, 0, 0, 0] ++ 3 :: List.replicate 15 0) ++ List.replicate 8 0 ++
    ([1, 0, 0, 0, 0, 0, 0, 0] ++ [0, 0, 0, 0] ++
      ([1, 0, 0, 0, 0, 0, 0, 0] ++ [0, 0, 0, 0] ++ 1 :: List.replicate 15 0)) ++
    List.replicate 8 0

def oneModuleBytes : List UInt8 :=
  [1, 0, 0, 0] ++ List.replicate 48 0 ++
    ([1, 0, 0, 0, 0, 0, 0, 0] ++ [1, 0, 0, 0, 0, 0, 0, 0, 109] ++ oneTypeBytes)

theorem encode_decode_oneType :
    encodeModule oneType.module = [0, 0, 0, 0, 1, 0, 0, 0] ++ oneTypeBytes ∧
      encodeGuild ⟨.empty, .ofList [("m", oneType.module)]⟩ =
        [1, 0, 0, 0, 1, 0, 0, 0] ++ oneModuleBytes := by
  have hone : oneType.Distinct :=
    ⟨⟨by decide +kernel, by decide +kernel⟩, ⟨by decide +kernel, by decide +kernel⟩⟩
  constructor
  · obtain ⟨version, r, hr, -, hback⟩ := encode_decode.1 ([0, 0, 0, 0, 1, 0, 0, 0] ++ oneTypeBytes)
      oneType.module rfl
    have hspelled : Format.moduleRecord.Spells ([0, 0, 0, 0, 1, 0, 0, 0] ++ oneTypeBytes) .module
        currentVersion oneType := rfl
    cases hr.symm.trans hspelled
    exact (hback rfl hone).1
  · obtain ⟨version, r, hr, -, hback⟩ := encode_decode.2
      ([1, 0, 0, 0, 1, 0, 0, 0] ++ oneModuleBytes) ⟨.empty, .ofList [("m", oneType.module)]⟩ rfl
    have hspelled : Format.guildRecord.Spells ([1, 0, 0, 0, 1, 0, 0, 0] ++ oneModuleBytes) .guild
        currentVersion ⟨⟨1, [], [], [], [], [], []⟩, [("m", oneType)]⟩ := rfl
    cases hr.symm.trans hspelled
    have hdistinct : GuildRecord.Distinct ⟨⟨1, [], [], [], [], [], []⟩, [("m", oneType)]⟩ := by
      refine ⟨⟨?_, ?_, ?_, ?_, ?_, ?_⟩, ?_, ?_⟩
      case refine_8 =>
        rintro e he
        cases List.mem_singleton.1 he
        exact hone
      all_goals decide +kernel
    exact (hback rfl hdistinct).1

end GuildPolicy
