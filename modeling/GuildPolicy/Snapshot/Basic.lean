import GuildPolicy.AccessVector.Validity
import GuildPolicy.Module.Validity
import GuildPolicy.Snapshot.Format

namespace GuildPolicy

/-- What is kept of a guild: its access vector and its modules, by name in load order. -/
structure GuildSnapshot where
  vector : AccessVector
  modules : Table String PolicyModule
  deriving DecidableEq

namespace GuildSnapshot

def blank : GuildSnapshot := ⟨.empty, .empty⟩

/-- A module must be valid and stored under its own name. -/
def validateEntry (entry : String × PolicyModule) : Except PolicyError Unit := do
  entry.2.validate
  if entry.1 = entry.2.name then .ok ()
  else .error (.invalid (.storedUnder entry.1 entry.2.name))

def validate (s : GuildSnapshot) : Except PolicyError Unit := do
  s.vector.validate
  s.modules.entries.forM validateEntry

end GuildSnapshot

namespace Format

def kind : Format SnapshotKind :=
  word.refine
    (fun
      | .module => 0
      | .guild => 1)
    fun n => if n = 0 then .ok .module else if n = 1 then .ok .guild else .error (.invalidKind n)

def header : Format (SnapshotKind × UInt32) := pair kind word

def targetTable : Format TargetTable := table word (table word mask)

def module : Format PolicyModule :=
  (pair text (pair (option text) (pair word (pair (list text) (pair (list mask) (pair (list mask)
    (pair targetTable targetTable))))))).convert
    (fun m => (m.name, m.author, m.version, m.types, m.allow, m.deny, m.allowOn, m.denyOn))
    fun (name, author, version, types, allow, deny, allowOn, denyOn) =>
      ⟨name, author, version, types, allow, deny, allowOn, denyOn⟩

def typePair : Format TypePair :=
  (pair word word).convert (fun p => (p.subject, p.target)) fun (s, t) => ⟨s, t⟩

def vector : Format AccessVector :=
  (pair word (pair (table word text) (pair (table text word) (pair (table word mask)
    (pair (table word mask) (pair (table typePair mask) (table typePair mask))))))).convert
    (fun v => (v.version, v.names, v.ids, v.allow, v.deny, v.allowOn, v.denyOn))
    fun (version, names, ids, allow, deny, allowOn, denyOn) =>
      ⟨version, names, ids, allow, deny, allowOn, denyOn⟩

def guild : Format GuildSnapshot :=
  (pair vector (table text module)).convert (fun s => (s.vector, s.modules)) fun (v, m) => ⟨v, m⟩

end Format

def encodeSnapshot {α : Type} (kind : SnapshotKind) (body : Format α) (value : α) : List UInt8 :=
  Format.header.write (kind, currentVersion) ++ body.write value

/-- The header is checked before the body is looked at. The body takes the bytes to their end and
has to hold together. -/
def decodeSnapshot {α : Type} (kind : SnapshotKind) (body : Format α) (bytes : List UInt8) :
    Except PolicyError α :=
  match Format.header.read bytes with
  | .error f => .error (.decode f)
  | .ok ((found, version), rest) =>
    if found ≠ kind then .error (.invalid (.wrongKind kind found))
    else if currentVersion < version then .error (.unsupportedVersion version)
    else
      match body.read rest with
      | .error f => .error (.decode f)
      | .ok (value, rest) =>
        if rest = [] then .ok value else .error (.invalid (.trailingBytes rest.length))

def encodeModule (m : PolicyModule) : List UInt8 := encodeSnapshot .module .module m

def decodeModule (bytes : List UInt8) : Except PolicyError PolicyModule := do
  let m ← decodeSnapshot .module .module bytes
  m.validate
  return m

def encodeGuild (s : GuildSnapshot) : List UInt8 := encodeSnapshot .guild .guild s

def decodeGuild (bytes : List UInt8) : Except PolicyError GuildSnapshot := do
  let s ← decodeSnapshot .guild .guild bytes
  s.validate
  return s

end GuildPolicy
