import GuildPolicy.Proofs.Snapshot.Format
import GuildPolicy.Snapshot.Basic

namespace GuildPolicy

namespace Format

theorem lossless_kind : kind.Lossless := by
  refine lossless_word.refine fun k => ?_
  cases k with
  | module => rfl
  | guild => rfl

theorem lossless_header : header.Lossless := lossless_kind.pair lossless_word

theorem lossless_targetTable : targetTable.Lossless :=
  lossless_word.table (lossless_word.table lossless_mask)

theorem lossless_module : module.Lossless :=
  (lossless_text.pair <| lossless_text.option.pair <| lossless_word.pair <|
    lossless_text.list.pair <| lossless_mask.list.pair <| lossless_mask.list.pair <|
    lossless_targetTable.pair lossless_targetTable).convert fun _ => rfl

theorem lossless_typePair : typePair.Lossless :=
  (lossless_word.pair lossless_word).convert fun _ => rfl

theorem lossless_vector : vector.Lossless :=
  (lossless_word.pair <| (lossless_word.table lossless_text).pair <|
    (lossless_text.table lossless_word).pair <| (lossless_word.table lossless_mask).pair <|
    (lossless_word.table lossless_mask).pair <| (lossless_typePair.table lossless_mask).pair <|
    lossless_typePair.table lossless_mask).convert fun _ => rfl

theorem lossless_guild : guild.Lossless :=
  (lossless_vector.pair (lossless_text.table lossless_module)).convert fun _ => rfl

end Format

/-- The header is written for the kind that is expected and the newest version, so that reading
comes to the body, and the body takes the bytes to their end. -/
theorem decodeSnapshot_encodeSnapshot {α : Type} {kind : SnapshotKind} {body : Format α}
    (hbody : body.Lossless) {value : α}
    (h : (encodeSnapshot kind body value).length < UInt64.size) :
    decodeSnapshot kind body (encodeSnapshot kind body value) = .ok value := by
  rw [encodeSnapshot, List.length_append] at h
  have hheader := Format.lossless_header.read_write (kind, currentVersion) (body.write value)
    (by omega)
  have hvalue := hbody.read_write value [] (by omega)
  rw [List.append_nil] at hvalue
  simp only [decodeSnapshot, encodeSnapshot, hheader, hvalue]
  rw [if_neg fun hne => hne rfl, if_neg (by decide), if_pos trivial]

variable {m : PolicyModule} {s : GuildSnapshot}

theorem decodeModule_encodeModule (h : (encodeModule m).length < UInt64.size) :
    decodeModule (encodeModule m) = (fun _ => m) <$> m.validate := by
  rw [decodeModule, encodeModule, decodeSnapshot_encodeSnapshot Format.lossless_module h]
  rfl

theorem decodeGuild_encodeGuild (h : (encodeGuild s).length < UInt64.size) :
    decodeGuild (encodeGuild s) = (fun _ => s) <$> s.validate := by
  rw [decodeGuild, encodeGuild, decodeSnapshot_encodeSnapshot Format.lossless_guild h]
  rfl

/-- A module or a guild that is valid is read as it was written, and one that is not is refused for
the reason for which it is not. Lengths are written in eight bytes, which is no limit to bytes that
fit into memory. -/
theorem decode_encode :
    (∀ m : PolicyModule, (encodeModule m).length < UInt64.size →
      (m.validate = .ok () → decodeModule (encodeModule m) = .ok m) ∧
        ∀ e, m.validate = .error e → decodeModule (encodeModule m) = .error e) ∧
    ∀ s : GuildSnapshot, (encodeGuild s).length < UInt64.size →
      (s.validate = .ok () → decodeGuild (encodeGuild s) = .ok s) ∧
        ∀ e, s.validate = .error e → decodeGuild (encodeGuild s) = .error e := by
  refine ⟨fun m hm => ⟨fun h => ?_, fun e h => ?_⟩, fun s hs => ⟨fun h => ?_, fun e h => ?_⟩⟩
  · rw [decodeModule_encodeModule hm, h]
    rfl
  · rw [decodeModule_encodeModule hm, h]
    rfl
  · rw [decodeGuild_encodeGuild hs, h]
    rfl
  · rw [decodeGuild_encodeGuild hs, h]
    rfl

/-- Types and tables out of their order, a name that is not ASCII, and a mask of all 128 bits. -/
def moderation : PolicyModule where
  name := "modération"
  author := some "ops"
  version := 4294967295
  types := ["канал", "member"]
  allow := [BitVec.allOnes 128]
  deny := []
  allowOn := .ofList [(1, .ofList [(1, 1), (0, 2)]), (0, .empty)]
  denyOn := .empty

def nameless : PolicyModule := { moderation with name := "" }

theorem decode_encode_moderation :
    decodeModule (encodeModule moderation) = .ok moderation ∧
      decodeModule (encodeModule nameless) = .error (.invalid .emptyModuleName) ∧
      decodeGuild (encodeGuild ⟨.empty, .ofList [("modération", moderation)]⟩) =
        .ok ⟨.empty, .ofList [("modération", moderation)]⟩ ∧
      decodeGuild (encodeGuild ⟨.empty, .ofList [("other", moderation)]⟩) =
        .error (.invalid (.storedUnder "other" "modération")) :=
  ⟨(decode_encode.1 moderation (by decide +kernel)).1 rfl,
    (decode_encode.1 nameless (by decide +kernel)).2 _ rfl,
    (decode_encode.2 _ (by decide +kernel)).1 rfl,
    (decode_encode.2 _ (by decide +kernel)).2 _ rfl⟩

end GuildPolicy
