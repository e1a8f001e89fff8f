import GuildPolicy.Guild.Manager
import GuildPolicy.Proofs.Module.Validity
import GuildPolicy.Proofs.Snapshot.RoundTrip

namespace GuildPolicy

open GuildPolicy.Syntax

variable {v : Vocabulary} {source filename : String} {p : Policy} {ss before : List Statement}
variable {d : Draft} {m : PolicyModule}

/-- Whenever a rule for any target is reached, the wildcard table of its kind has an entry for its
subject, and that entry becomes the permissions of the rule. -/
def SetsInRange (v : Vocabulary) (ss : List Statement) : Prop :=
  ∀ before r, before ++ [.rule r] <+: ss → r.target = .any →
    ∀ d id, before.foldlM (Draft.add v) .blank = .ok d → d.typeId r.subject = .ok id →
      id.toNat < (d.module.wildcard r.kind).length ∧
      ∀ d', d.addRule v r = .ok d' → (d'.module.wildcard r.kind)[id.toNat]? = some (r.bits v)

theorem holds_of_foldlM (hp : parse source = .ok p) (hbefore : before <+: p.statements)
    (hd : before.foldlM (Draft.add v) .blank = .ok d) : d.Holds v before := by
  obtain ⟨hcount, hspelled⟩ := isSpelled_of_parse hp
  have hcount' : before.countP Statement.isModule ≤ 1 := hbefore.sublist.countP_le.trans hcount
  have hrun := foldlM_add (fun s hs => hspelled s (hbefore.subset hs))
    ((List.nil_append before).symm ▸ hcount') Draft.holds_blank (compilable_nil (v := v))
  rw [List.nil_append, hd] at hrun
  rcases hrun with ⟨-, d', hd', hholds⟩ | ⟨-, _, _, _, _, _, _, _, _, hfails⟩
  · cases hd'
    exact hholds
  · cases hfails

namespace Draft

variable {d' : Draft} {r : Rule} {id : TypeId}

theorem typeId?_of_typeId {name : Name} (h : d.typeId name = .ok id) :
    d.module.typeId? name.text = some id := by
  rw [typeId] at h
  split at h
  · next hid =>
    cases h
    exact hid
  · cases h

theorem permissions_of_ok {ps : List Name} {bits : Mask} (h : permissions v ps = .ok bits) :
    bits = .unionAll (ps.filterMap fun p => v.resolve p.text) := by
  rw [permissions_eq] at h
  cases hfaults : ps.flatMap (permissionFaults v) with
  | nil =>
    rw [hfaults] at h
    exact (Except.ok.inj h).symm
  | cons =>
    rw [hfaults] at h
    cases h

theorem addRule_any (hany : r.target = .any) (hid : d.typeId r.subject = .ok id)
    (h : d.addRule v r = .ok d') : d'.module = record d.module r.kind id none (r.bits v) := by
  rw [addRule, hid, targetId, hany] at h
  obtain ⟨_, hsubject, h⟩ := bind_eq_ok_iff.1 h
  cases hsubject
  obtain ⟨_, htarget, h⟩ := bind_eq_ok_iff.1 h
  cases htarget
  obtain ⟨bits, hbits, h⟩ := bind_eq_ok_iff.1 h
  cases h
  rw [permissions_of_ok hbits, Rule.bits]

theorem wildcard_record {m : PolicyModule} (kind : RuleKind) (bits : Mask)
    (h : id.toNat < (m.wildcard kind).length) :
    ((record m kind id none bits).wildcard kind)[id.toNat]? = some bits := by
  cases kind with
  | allow => exact List.getElem?_set_self h
  | deny => exact List.getElem?_set_self h

end Draft

/-- The types are listed before a rule can speak of them, and the tables with them. -/
theorem setsInRange_of_parse (v : Vocabulary) (hp : parse source = .ok p) :
    SetsInRange v p.statements := by
  intro before r hprefix hany d id hd hid
  have hholds := holds_of_foldlM hp ((List.prefix_append ..).trans hprefix) hd
  have hlt : id.toNat < (d.module.wildcard r.kind).length := by
    rw [hholds.means.wildcard_length]
    exact PolicyModule.lt_of_typeId? (Draft.typeId?_of_typeId hid)
  refine ⟨hlt, fun d' hd' => ?_⟩
  rw [Draft.addRule_any hany hid hd']
  exact Draft.wildcard_record r.kind (r.bits v) hlt

theorem Manager.load_of_validate (h : m.validate = .ok ()) (manager : Manager) (now : Nat)
    (files : Files) (g : Uuid) :
    (manager.load now files g m).1 = .ok () ∧
    ∃ state, (manager.load now files g m).2.guilds.get? g = some state ∧
      state.modules.get? m.name = some m := by
  rw [load, h]
  exact ⟨rfl, _, Table.get?_insert_self .., Table.get?_insert_self ..⟩

/-- No text sets an entry of a wildcard table that is not there. What compiles fits together and
lacks a name at most: with one, every manager loads it for every guild, and it is read as it was
written. Lengths are written in eight bytes, which is no limit to bytes that fit into memory. -/
theorem compiled_sound (v : Vocabulary) (source filename : String) :
    (∀ p, parse source = .ok p → SetsInRange v p.statements) ∧
    ∀ m, compile v source filename = .ok m →
      (m.validate = .ok () ↔ m.name ≠ "") ∧
      (∀ kind, (m.wildcard kind).length = m.types.length) ∧
      (∀ kind, ∀ e ∈ (m.targeted kind).entries,
        e.1.toNat < m.types.length ∧ ∀ t ∈ e.2.keys, t.toNat < m.types.length) ∧
      (m.name ≠ "" →
        (∀ (manager : Manager) (now : Nat) (files : Files) (g : Uuid),
          (manager.load now files g m).1 = .ok () ∧
          ∃ state, (manager.load now files g m).2.guilds.get? g = some state ∧
            state.modules.get? m.name = some m) ∧
        ((encodeModule m).length < UInt64.size → decodeModule (encodeModule m) = .ok m)) := by
  refine ⟨fun p => setsInRange_of_parse v, fun m h => ?_⟩
  obtain ⟨p, -, hmeans⟩ := means_of_compile h
  have hvalidate := PolicyModule.validate_of_compile h
  refine ⟨hvalidate, hmeans.wildcard_length, fun kind e he => hmeans.lt_of_mem_targeted he,
    fun hname => ?_⟩
  have hvalid := hvalidate.2 hname
  refine ⟨Manager.load_of_validate hvalid, fun hlength => ?_⟩
  rw [decodeModule_encodeModule hlength, hvalid]
  rfl

/-- A module whose name comes last, with rules of both kinds for any target and for one. -/
def namedLast : PolicyModule where
  name := "base"
  author := none
  version := 0
  types := ["a", "b"]
  allow := [.empty, .twoPow 128 1]
  deny := [.twoPow 128 2, .empty]
  allowOn := .ofList [(1, .ofList [(0, .twoPow 128 2)])]
  denyOn := .empty

def namedLastText : String :=
  "require \x7b type a; type b; type a \x7d allow b * \x7b KickMembers \x7d " ++
    "deny a * \x7b BanMembers \x7d allow b a \x7b BanMembers \x7d " ++
    "module \x7b name 'base' \x7d"

theorem compiled_sound_named :
    compile .platform namedLastText "base.policy" = .ok namedLast ∧
    namedLast.validate = .ok () ∧ decodeModule (encodeModule namedLast) = .ok namedLast ∧
    ∀ (manager : Manager) (now : Nat) (files : Files) (g : Uuid),
      (manager.load now files g namedLast).1 = .ok () := by
  have hcompile : compile .platform namedLastText "base.policy" = .ok namedLast :=
    toOption_eq_some_iff.1 (by decide +kernel)
  obtain ⟨hvalidate, -, -, hname⟩ :=
    (compiled_sound .platform namedLastText "base.policy").2 namedLast hcompile
  obtain ⟨hload, hdecode⟩ := hname (by decide)
  exact ⟨hcompile, hvalidate.2 (by decide), hdecode (by decide +kernel),
    fun manager now files g => (hload manager now files g).1⟩

end GuildPolicy
