import GuildPolicy.Guild.Uuid
import GuildPolicy.Module.Basic

namespace GuildPolicy

inductive EntityKind
  | member
  | role
  | channel
  deriving DecidableEq

def EntityKind.letter : EntityKind → Char
  | .member => 'm'
  | .role => 'r'
  | .channel => 'c'

/-- Something in a guild that can have a security type. -/
structure Entity where
  kind : EntityKind
  id : Uuid
  deriving DecidableEq

namespace Entity

def member (id : Uuid) : Entity := ⟨.member, id⟩

def text (e : Entity) : String := String.ofList [e.kind.letter, ':'] ++ e.id.text

end Entity

/-- The security types of entities, guild by guild, with a default for the others of a guild. -/
structure Labels where
  assigned : Table (Uuid × Entity) TypeId
  defaults : Table Uuid TypeId
  deriving DecidableEq

namespace Labels

def empty : Labels := ⟨.empty, .empty⟩

/-- Labels an entity, in the place of an earlier label. -/
def assign (l : Labels) (guild : Uuid) (e : Entity) (id : TypeId) : Labels :=
  { l with assigned := l.assigned.insert (guild, e) id }

def unassign (l : Labels) (guild : Uuid) (e : Entity) : Option TypeId × Labels :=
  (l.assigned.get? (guild, e), { l with assigned := l.assigned.erase (guild, e) })

/-- Sets the type of the entities of a guild that have no label. -/
def setDefault (l : Labels) (guild : Uuid) (id : TypeId) : Labels :=
  { l with defaults := l.defaults.insert guild id }

def clear (l : Labels) (guild : Uuid) : Labels where
  assigned := l.assigned.filter fun (g, _) _ => g ≠ guild
  defaults := l.defaults.erase guild

/-- The type of an entity: its label, else the default of its guild. -/
def typeOf? (l : Labels) (guild : Uuid) (e : Entity) : Option TypeId :=
  (l.assigned.get? (guild, e)).or (l.defaults.get? guild)

end Labels

end GuildPolicy
