import GuildPolicy.Proofs.Outcome
import GuildPolicy.Proofs.Snapshot.RoundTrip

namespace GuildPolicy

namespace Format

variable {α β κ ν : Type}

section Sequences

variable {f : Format α} {g : Format β} (bytes : List UInt8)

theorem number_read (width : Nat) : (number width).read bytes =
    takeBytes width bytes >>= fun r => .ok (ofDigits r.1, r.2) := by
  simp only [number]
  cases takeBytes width bytes with
  | error fault => rfl
  | ok r => rfl

theorem convert_read (pack : β → α) (unpack : α → β) :
    (f.convert pack unpack).read bytes = f.read bytes >>= fun r => .ok (unpack r.1, r.2) := by
  simp only [convert]
  cases f.read bytes with
  | error fault => rfl
  | ok r => rfl

theorem refine_read (pack : β → α) (unpack : α → Except DecodeFault β) :
    (f.refine pack unpack).read bytes =
      f.read bytes >>= fun r => unpack r.1 >>= fun b => .ok (b, r.2) := by
  simp only [refine]
  cases f.read bytes with
  | error fault => rfl
  | ok r =>
    dsimp only
    cases h : unpack r.1 with
    | error fault => simp only [bind, Except.bind, h]
    | ok b => simp only [bind, Except.bind, h]

theorem pair_read : (f.pair g).read bytes =
    f.read bytes >>= fun r => g.read r.2 >>= fun r' => .ok ((r.1, r'.1), r'.2) := by
  simp only [pair]
  cases f.read bytes with
  | error fault => rfl
  | ok r =>
    dsimp only
    cases h : g.read r.2 with
    | error fault => simp only [bind, Except.bind, h]
    | ok r' => simp only [bind, Except.bind, h]

theorem readMany_succ (n : Nat) : f.readMany (n + 1) bytes =
    f.read bytes >>= fun r => f.readMany n r.2 >>= fun r' => .ok (r.1 :: r'.1, r'.2) := by
  rw [readMany]
  cases f.read bytes with
  | error fault => rfl
  | ok r =>
    dsimp only
    cases h : f.readMany n r.2 with
    | error fault => simp only [bind, Except.bind, h]
    | ok r' => simp only [bind, Except.bind, h]

theorem list_read : (list f).read bytes = length.read bytes >>= fun r => f.readMany r.1 r.2 := by
  simp only [list]
  cases length.read bytes with
  | error fault => rfl
  | ok r => rfl

theorem byteString_read :
    byteString.read bytes = length.read bytes >>= fun r => takeBytes r.1 r.2 := by
  simp only [byteString]
  cases length.read bytes with
  | error fault => rfl
  | ok r => rfl

end Sequences

/-- Unless the bytes run out, more of them are only left over. -/
def Steady (read : List UInt8 → Except DecodeFault (α × List UInt8)) : Prop :=
  ∀ bytes more, read bytes = .error .outOfBytes ∨
    read (bytes ++ more) = (fun r => (r.1, r.2 ++ more)) <$> read bytes

section Steady

theorem steady_ok (a : α) : Steady fun bytes => .ok (a, bytes) := fun _ _ => .inr rfl

theorem Steady.andThen {read : List UInt8 → Except DecodeFault (α × List UInt8)}
    {next : α → List UInt8 → Except DecodeFault (β × List UInt8)}
    {both : List UInt8 → Except DecodeFault (β × List UInt8)} (hread : Steady read)
    (hnext : ∀ a, Steady (next a))
    (h : ∀ bytes, both bytes = read bytes >>= fun r => next r.1 r.2) :
    Steady both := by
  intro bytes more
  rw [h, h]
  rcases hread bytes more with hr | hr
  · rw [hr]
    exact .inl rfl
  · rw [hr]
    cases read bytes with
    | error fault => exact .inr rfl
    | ok r => exact hnext r.1 r.2 more

theorem steady_takeBytes (n : Nat) : Steady (takeBytes n) := by
  intro bytes more
  induction n generalizing bytes with
  | zero => exact .inr rfl
  | succ n ih =>
    cases bytes with
    | nil => exact .inl rfl
    | cons b bytes =>
      rw [List.cons_append, takeBytes, takeBytes]
      rcases ih bytes with h | h
      · rw [h]
        exact .inl rfl
      · rw [h]
        cases takeBytes n bytes with
        | error fault => exact .inr rfl
        | ok r => exact .inr rfl

theorem steady_number (width : Nat) : Steady (number width).read :=
  (steady_takeBytes width).andThen (fun taken => steady_ok (ofDigits taken)) fun bytes =>
    number_read bytes width

variable {f : Format α} {g : Format β}

theorem Steady.convert (hf : Steady f.read) (pack : β → α) (unpack : α → β) :
    Steady (f.convert pack unpack).read :=
  hf.andThen (fun a => steady_ok (unpack a)) fun bytes => convert_read bytes pack unpack

theorem Steady.refine (hf : Steady f.read) (pack : β → α) (unpack : α → Except DecodeFault β) :
    Steady (f.refine pack unpack).read := by
  have hnext (a : α) : Steady fun rest => unpack a >>= fun b => .ok (b, rest) := by
    intro bytes more
    cases unpack a with
    | ok b => exact .inr rfl
    | error fault => exact .inr rfl
  exact hf.andThen hnext fun bytes => refine_read bytes pack unpack

theorem Steady.pair (hf : Steady f.read) (hg : Steady g.read) : Steady (f.pair g).read :=
  hf.andThen (fun a => hg.andThen (fun b => steady_ok (a, b)) fun _ => rfl) pair_read

theorem Steady.option (hf : Steady f.read) : Steady (option f).read := by
  intro bytes more
  cases bytes with
  | nil => exact .inl rfl
  | cons tag bytes =>
    rw [List.cons_append]
    simp only [Format.option]
    by_cases hnone : tag = 0
    · rw [if_pos hnone, if_pos hnone]
      exact .inr rfl
    by_cases hsome : tag = 1
    · rw [if_neg hnone, if_pos hsome, if_neg hnone, if_pos hsome]
      rcases hf bytes more with h | h
      · rw [h]
        exact .inl rfl
      · rw [h]
        cases f.read bytes with
        | error fault => exact .inr rfl
        | ok r => exact .inr rfl
    · rw [if_neg hnone, if_neg hsome, if_neg hnone, if_neg hsome]
      exact .inr rfl

theorem Steady.readMany (hf : Steady f.read) (n : Nat) : Steady (f.readMany n) := by
  induction n with
  | zero => exact steady_ok []
  | succ n ih =>
    refine hf.andThen (fun a => ih.andThen (fun as => steady_ok (a :: as)) fun _ => rfl) ?_
    exact fun bytes => readMany_succ bytes n

theorem Steady.list (hf : Steady f.read) : Steady (list f).read :=
  (steady_number 8).andThen hf.readMany list_read

theorem Steady.table [DecidableEq κ] {key : Format κ} {value : Format ν} (hkey : Steady key.read)
    (hvalue : Steady value.read) : Steady (table key value).read :=
  (hkey.pair hvalue).list.convert _ _

theorem steady_byteString : Steady byteString.read :=
  (steady_number 8).andThen steady_takeBytes byteString_read

theorem steady_text : Steady text.read := steady_byteString.refine _ _

theorem steady_word : Steady word.read := (steady_number 4).convert _ _

theorem steady_mask : Steady mask.read := (steady_number 16).convert _ _

theorem steady_header : Steady header.read := (steady_word.refine _ _).pair steady_word

theorem steady_targetTable : Steady targetTable.read :=
  steady_word.table (steady_word.table steady_mask)

theorem steady_module : Steady module.read :=
  (steady_text.pair <| steady_text.option.pair <| steady_word.pair <| steady_text.list.pair <|
    steady_mask.list.pair <| steady_mask.list.pair <|
    steady_targetTable.pair steady_targetTable).convert _ _

theorem steady_typePair : Steady typePair.read := (steady_word.pair steady_word).convert _ _

theorem steady_vector : Steady vector.read :=
  (steady_word.pair <| (steady_word.table steady_text).pair <|
    (steady_text.table steady_word).pair <| (steady_word.table steady_mask).pair <|
    (steady_word.table steady_mask).pair <| (steady_typePair.table steady_mask).pair <|
    steady_typePair.table steady_mask).convert _ _

theorem steady_guild : Steady guild.read :=
  (steady_vector.pair (steady_text.table steady_module)).convert _ _

/-- What was written runs out of bytes wherever it is cut. -/
theorem Lossless.read_cut (hf : f.Lossless) (hs : Steady f.read) {a : α} {cut missing : List UInt8}
    (hcut : f.write a = cut ++ missing) (hne : missing ≠ [])
    (hlen : (f.write a).length < UInt64.size) : f.read cut = .error .outOfBytes := by
  rcases hs cut missing with h | h
  · exact h
  have hwhole := hf.read_write a [] hlen
  rw [List.append_nil, hcut, h] at hwhole
  obtain ⟨⟨a', rest⟩, _, hrest⟩ := map_eq_ok_iff.1 hwhole
  have hnil : rest ++ missing = [] := congrArg Prod.snd hrest
  exact absurd (List.append_eq_nil_iff.1 hnil).2 hne

end Steady

end Format

section Snapshots

variable {α : Type} {kind : SnapshotKind} {body : Format α} {value : α} {bytes : List UInt8}

theorem decodeSnapshot_eq_ok_iff :
    decodeSnapshot kind body bytes = .ok value ↔
      ∃ version rest, Format.header.read bytes = .ok ((kind, version), rest) ∧
        ¬currentVersion < version ∧ body.read rest = .ok (value, []) := by
  rw [decodeSnapshot]
  constructor
  · intro h
    split at h
    · cases h
    · next found version rest hheader =>
      split at h
      · cases h
      · next hkind =>
        split at h
        · cases h
        · next hversion =>
          split at h
          · cases h
          · next hbody =>
            split at h
            · next hrest =>
              cases h
              rw [hrest] at hbody
              rw [Classical.not_not] at hkind
              exact ⟨version, rest, hkind ▸ hheader, hversion, hbody⟩
            · cases h
  · rintro ⟨version, rest, hheader, hversion, hbody⟩
    rw [hheader]
    dsimp only
    rw [if_neg fun hne => hne rfl, if_neg hversion, hbody]
    exact if_pos rfl

/-- The header is read with what follows it, so that a cut behind it leaves kind and version as they
were written. -/
theorem decodeSnapshot_cut (hbody : body.Lossless) (hsteady : Format.Steady body.read)
    {cut missing : List UInt8} (hcut : encodeSnapshot kind body value = cut ++ missing)
    (hne : missing ≠ []) (hlen : (encodeSnapshot kind body value).length < UInt64.size) :
    decodeSnapshot kind body cut = .error (.decode .outOfBytes) := by
  have hout : (Format.header.pair body).read cut = .error .outOfBytes :=
    (Format.lossless_header.pair hbody).read_cut (Format.steady_header.pair hsteady)
      (a := ((kind, currentVersion), value)) hcut hne hlen
  rw [decodeSnapshot]
  cases hheader : Format.header.read cut with
  | error fault =>
    simp only [Format.pair, hheader] at hout
    cases hout
    rfl
  | ok r =>
    have hwhole : Format.header.read (cut ++ missing) =
        .ok ((kind, currentVersion), body.write value) := by
      rw [← hcut]
      refine Format.lossless_header.read_write _ _ ?_
      rw [encodeSnapshot, List.length_append] at hlen
      omega
    rcases Format.steady_header cut missing with h | h
    · rw [hheader] at h
      cases h
    · rw [hheader, hwhole] at h
      obtain ⟨⟨found, version⟩, rest⟩ := r
      have hwritten : (kind, currentVersion) = (found, version) :=
        congrArg Prod.fst (Except.ok.inj h)
      cases hwritten
      simp only [Format.pair, hheader] at hout
      dsimp only
      rw [if_neg fun hne => hne rfl, if_neg (by decide)]
      cases hrest : body.read rest with
      | ok r =>
        rw [hrest] at hout
        cases hout
      | error fault =>
        rw [hrest] at hout
        cases hout
        rfl

theorem decodeSnapshot_extended (hbody : body.Lossless) {more : List UInt8} (hne : more ≠ [])
    (hlen : (encodeSnapshot kind body value).length < UInt64.size) :
    decodeSnapshot kind body (encodeSnapshot kind body value ++ more) =
      .error (.invalid (.trailingBytes more.length)) := by
  rw [encodeSnapshot, List.length_append] at hlen
  have hheader := Format.lossless_header.read_write (kind, currentVersion)
    (body.write value ++ more) (by omega)
  have hvalue := hbody.read_write value more (by omega)
  simp only [decodeSnapshot, encodeSnapshot, List.append_assoc, hheader, hvalue]
  rw [if_neg fun hne => hne rfl, if_neg (by decide), if_neg hne]

end Snapshots

theorem decodeModule_eq_ok_iff {bytes : List UInt8} {m : PolicyModule} :
    decodeModule bytes = .ok m ↔
      decodeSnapshot .module .module bytes = .ok m ∧ m.validate = .ok () := by
  rw [decodeModule, bind_eq_ok_iff]
  constructor
  · rintro ⟨m', hm, h⟩
    obtain ⟨_, hvalid, h⟩ := bind_eq_ok_iff.1 h
    cases h
    exact ⟨hm, hvalid⟩
  · rintro ⟨hm, hvalid⟩
    exact ⟨m, hm, bind_eq_ok_iff.2 ⟨(), hvalid, rfl⟩⟩

theorem decodeGuild_eq_ok_iff {bytes : List UInt8} {s : GuildSnapshot} :
    decodeGuild bytes = .ok s ↔
      decodeSnapshot .guild .guild bytes = .ok s ∧ s.validate = .ok () := by
  rw [decodeGuild, bind_eq_ok_iff]
  constructor
  · rintro ⟨s', hs, h⟩
    obtain ⟨_, hvalid, h⟩ := bind_eq_ok_iff.1 h
    cases h
    exact ⟨hs, hvalid⟩
  · rintro ⟨hs, hvalid⟩
    exact ⟨s, hs, bind_eq_ok_iff.2 ⟨(), hvalid, rfl⟩⟩

/-- Of a snapshot only the whole is read: a beginning of it runs out of bytes, whatever the cut
falls into and whether what was written is valid or not, and bytes behind it are counted. And no
bytes are a snapshot of a module and of a guild. -/
theorem decode_whole :
    (∀ m : PolicyModule, (encodeModule m).length < UInt64.size →
      (∀ cut, cut <+: encodeModule m → cut ≠ encodeModule m →
        decodeModule cut = .error (.decode .outOfBytes)) ∧
      ∀ more, more ≠ [] →
        decodeModule (encodeModule m ++ more) = .error (.invalid (.trailingBytes more.length))) ∧
    (∀ s : GuildSnapshot, (encodeGuild s).length < UInt64.size →
      (∀ cut, cut <+: encodeGuild s → cut ≠ encodeGuild s →
        decodeGuild cut = .error (.decode .outOfBytes)) ∧
      ∀ more, more ≠ [] →
        decodeGuild (encodeGuild s ++ more) = .error (.invalid (.trailingBytes more.length))) ∧
    ∀ bytes m s, ¬(decodeModule bytes = .ok m ∧ decodeGuild bytes = .ok s) := by
  have hmissing {cut missing whole : List UInt8} (hcut : cut ++ missing = whole)
      (hne : cut ≠ whole) : missing ≠ [] := by
    rintro rfl
    rw [List.append_nil] at hcut
    exact hne hcut
  refine ⟨fun m hlen => ⟨?_, fun more hne => ?_⟩, fun s hlen => ⟨?_, fun more hne => ?_⟩, ?_⟩
  · rintro cut ⟨missing, hcut⟩ hne
    rw [decodeModule, decodeSnapshot_cut Format.lossless_module Format.steady_module hcut.symm
      (hmissing hcut hne) hlen]
    rfl
  · rw [decodeModule, encodeModule, decodeSnapshot_extended Format.lossless_module hne hlen]
    rfl
  · rintro cut ⟨missing, hcut⟩ hne
    rw [decodeGuild, decodeSnapshot_cut Format.lossless_guild Format.steady_guild hcut.symm
      (hmissing hcut hne) hlen]
    rfl
  · rw [decodeGuild, encodeGuild, decodeSnapshot_extended Format.lossless_guild hne hlen]
    rfl
  · rintro bytes m s ⟨hm, hs⟩
    obtain ⟨version, rest, hmodule, _⟩ :=
      decodeSnapshot_eq_ok_iff.1 (decodeModule_eq_ok_iff.1 hm).1
    obtain ⟨version', rest', hguild, _⟩ :=
      decodeSnapshot_eq_ok_iff.1 (decodeGuild_eq_ok_iff.1 hs).1
    rw [hmodule] at hguild
    cases hguild

theorem decode_whole_moderation :
    decodeModule ((encodeModule moderation).take 20) = .error (.decode .outOfBytes) ∧
      decodeModule ((encodeModule nameless).take 120) = .error (.decode .outOfBytes) ∧
      decodeGuild (encodeGuild ⟨.empty, .ofList [("other", moderation)]⟩ ++ [0, 1]) =
        .error (.invalid (.trailingBytes 2)) :=
  ⟨(decode_whole.1 moderation (by decide +kernel)).1 _ (List.take_prefix ..) (by decide +kernel),
    (decode_whole.1 nameless (by decide +kernel)).1 _ (List.take_prefix ..) (by decide +kernel),
    (decode_whole.2.1 _ (by decide +kernel)).2 [0, 1] nofun⟩

end GuildPolicy
