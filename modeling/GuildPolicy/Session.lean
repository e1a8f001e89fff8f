import GuildPolicy.Guild.Resolver

namespace GuildPolicy

/-- A manager, a resolver, labels, files and a clock. What a step leaves due is done before the next
one, and the clock moves on with every step. -/
structure Session where
  /-- Milliseconds since the session began. -/
  clock : Nat
  files : Files
  labels : Labels
  manager : Manager
  resolver : Resolver

inductive ModuleInput
  | source (filename text : String)
  | compiled (m : PolicyModule)

/-- What is done with files outside the policy engine. -/
inductive FileStep
  /-- Writes a file and creates the directories above it. -/
  | write (path : String) (bytes : List UInt8)
  | makeDirectory (path : String)
  | remove (path : String)
  | read (path : String)
  | list

inductive LabelStep
  | assign (guild : Uuid) (entity : Entity) (type : TypeId)
  | unassign (guild : Uuid) (entity : Entity)
  | setDefault (guild : Uuid) (type : TypeId)
  | clear (guild : Uuid)
  | typeOf (guild : Uuid) (entity : Entity)

/-- What changes or shows the modules and access vectors of guilds. -/
inductive AdminStep
  | load (guild : Uuid) (input : ModuleInput)
  | loadFile (guild : Uuid) (path : String)
  | unload (guild : Uuid) (name : String)
  | modules (guild : Uuid)
  | compileAll (guild : Uuid)
  | reload (guild : Uuid)
  | vector (guild : Uuid)
  | storeVector (guild : Uuid) (path : String)
  | loadVector (guild : Uuid) (path : String)
  | storeGuild (guild : Uuid)
  | loadGuild (guild : Uuid)
  | storeModule (path : String) (input : ModuleInput)
  | compileFile (path : String)
  | evict (guild : Uuid)
  | reset (guild : Uuid)
  | resident

/-- What asks for permissions, from memory alone. -/
inductive Lookup
  | current (guild : Uuid)
  | permissions (guild : Uuid) (subject : TypeRef)
  | permissionsOn (guild : Uuid) (subject target : TypeRef)
  | denialsOn (guild : Uuid) (subject target : TypeRef)
  /-- What policy allows a member, perhaps on a target. -/
  | policy (question : Question)
  /-- What a member effectively holds. -/
  | effective (question : Question) (native : Mask)
  /-- Whether a member effectively holds all that is required. -/
  | holds (question : Question) (native required : Mask)

inductive Step
  | admin (step : AdminStep)
  /-- A look-up, perhaps detached from all background work. -/
  | lookup (step : Lookup) (detached : Bool)
  | label (step : LabelStep)
  | file (step : FileStep)
  | invalidateGuild (guild : Uuid)
  | invalidateEntity (guild : Uuid) (entity : Entity)
  | invalidateMember (guild member : Uuid)
  | describeResolver
  /-- A new manager and resolver; labels and files stay. -/
  | restart
  | sleep (ms : Nat)

inductive Answer
  | nothing
  | done
  | failed (e : PolicyError)
  | truth (b : Bool)
  | count (n : Nat)
  | bits (m : Mask)
  | type (id : TypeId)
  | vector (v : AccessVector)
  | module (m : PolicyModule)
  | modules (ms : ModuleSet)
  | bytes (bs : List UInt8)
  | text (s : String)
  | lines (ls : List String)

namespace Answer

def ofExcept {α : Type} (f : α → Answer) : Except PolicyError α → Answer
  | .ok a => f a
  | .error e => .failed e

/-- The answer of an operation that may give nothing. -/
def ofOption {α : Type} (f : α → Answer) : Option α → Answer
  | some a => f a
  | none => .nothing

end Answer

def ModuleInput.toModule : ModuleInput → Except PolicyError PolicyModule
  | .compiled m => .ok m
  | .source filename text =>
    match compile .platform text filename with
    | .ok m => .ok m
    | .error e => .error (.compile e)

def Files.step (fs : Files) : FileStep → Answer × Files
  | .write path bytes =>
    match fs.makeParents path with
    | (fs, _) => (.nothing, (fs.write path bytes).toOption.getD fs)
  | .makeDirectory path => (.nothing, (fs.makeDirectories path).1)
  | .remove path =>
    match fs.remove path with
    | (fs, result) => (.truth result.isOk, fs)
  | .read path => (.ofOption .bytes (fs.read path).toOption, fs)
  | .list => (.lines fs.listing, fs)

def Labels.step (l : Labels) : LabelStep → Answer × Labels
  | .assign guild entity type => (.nothing, l.assign guild entity type)
  | .unassign guild entity =>
    match l.unassign guild entity with
    | (found, l) => (.ofOption .type found, l)
  | .setDefault guild type => (.nothing, l.setDefault guild type)
  | .clear guild => (.nothing, l.clear guild)
  | .typeOf guild entity => (.ofOption .type (l.typeOf? guild entity), l)

namespace Session

def make (config : Config) : Session :=
  ⟨0, .empty, .empty, .make config, .make config⟩

def admin (s : Session) : AdminStep → Answer × Session
  | .load guild input =>
    match input.toModule with
    | .error e => (.failed e, s)
    | .ok module =>
      match s.manager.load s.clock s.files guild module with
      | (result, m) => (.ofExcept (fun _ => .done) result, { s with manager := m })
  | .loadFile guild path =>
    match s.manager.loadFile s.clock s.files guild path with
    | (result, m) => (.ofExcept (fun _ => .done) result, { s with manager := m })
  | .unload guild name =>
    match s.manager.unload s.clock s.files guild name with
    | (removed, m) => (.ofOption .module removed, { s with manager := m })
  | .modules guild =>
    match s.manager.modulesOf s.clock s.files guild with
    | (modules, m) => (.modules modules, { s with manager := m })
  | .compileAll guild =>
    match s.manager.compileAll s.clock s.files guild with
    | (result, m) => (.ofExcept .vector result, { s with manager := m })
  | .reload guild =>
    match s.resolver.reload s.manager s.clock s.files guild with
    | (result, r, m) => (.ofExcept .vector result, { s with resolver := r, manager := m })
  | .vector guild =>
    match s.manager.vectorOf s.clock s.files guild with
    | (v, m) => (.vector v, { s with manager := m })
  | .storeVector guild path =>
    match s.manager.store s.clock s.files guild path with
    | (result, m, files) =>
      (.ofExcept (fun _ => .done) result, { s with manager := m, files := files })
  | .loadVector guild path =>
    match s.manager.loadVector s.clock s.files guild path with
    | (result, m) => (.ofExcept (fun _ => .done) result, { s with manager := m })
  | .storeGuild guild =>
    match s.manager.storeGuild s.clock s.files guild with
    | (result, m, files) => (.ofExcept .truth result, { s with manager := m, files := files })
  | .loadGuild guild =>
    match s.manager.loadGuild s.clock s.files guild with
    | (result, m) => (.ofExcept .truth result, { s with manager := m })
  | .storeModule path input =>
    match input.toModule with
    | .error e => (.failed e, s)
    | .ok module =>
      match GuildPolicy.storeModule s.files path module with
      | (files, result) => (.ofExcept (fun _ => .done) result, { s with files := files })
  | .compileFile path => (.ofExcept .module (GuildPolicy.compileFile .platform s.files path), s)
  | .evict guild =>
    let m := s.manager.evict guild
    (.count m.residentCount, { s with manager := m })
  | .reset guild =>
    let m := s.manager.reset s.clock guild
    (.count m.residentCount, { s with manager := m })
  | .resident => (.count s.manager.residentCount, s)

def policy (s : Session) (detached : Bool) (q : Question) : Mask × Session :=
  match s.resolver.resolve s.manager s.labels s.clock detached q with
  | (bits, r, m) => (bits, { s with resolver := r, manager := m })

def lookup (s : Session) (detached : Bool) : Lookup → Answer × Session
  | .current guild =>
    match s.manager.current s.clock detached guild with
    | (p, m) => (.ofOption (fun p => .vector p.vector) p, { s with manager := m })
  | .permissions guild subject =>
    match s.manager.permissionsOf s.clock detached guild subject with
    | (bits, m) => (.bits bits, { s with manager := m })
  | .permissionsOn guild subject target =>
    match s.manager.permissionsOn s.clock detached guild subject target with
    | (bits, m) => (.bits bits, { s with manager := m })
  | .denialsOn guild subject target =>
    match s.manager.denialsOn s.clock detached guild subject target with
    | (bits, m) => (.bits bits, { s with manager := m })
  | .policy q =>
    match s.policy detached q with
    | (bits, s) => (.bits bits, s)
  | .effective q native =>
    match s.policy detached q with
    | (bits, s) => (.bits (GuildPolicy.effective native bits), s)
  | .holds q native required =>
    if required = .empty then (.truth true, s)
    else
      match s.policy detached q with
      | (bits, s) => (.truth ((GuildPolicy.effective native bits).has required), s)

/-- Takes a step, without what it leaves due. -/
def act (s : Session) : Step → Answer × Session
  | .admin step => s.admin step
  | .lookup step detached => s.lookup detached step
  | .label step =>
    match s.labels.step step with
    | (a, labels) => (a, { s with labels := labels })
  | .file step =>
    match s.files.step step with
    | (a, files) => (a, { s with files := files })
  | .invalidateGuild guild => (.nothing, { s with resolver := s.resolver.invalidateGuild guild })
  | .invalidateEntity guild entity =>
    (.nothing, { s with resolver := s.resolver.invalidateEntity guild entity })
  | .invalidateMember guild member =>
    (.nothing, { s with resolver := s.resolver.invalidateMember guild member })
  | .describeResolver => (.text s.resolver.text, s)
  | .restart =>
    let config := s.manager.config
    (.nothing, { s with manager := .make config, resolver := .make config })
  | .sleep ms => (.nothing, { s with clock := s.clock + ms })

def tick : Nat := 2

/-- Takes a step, does what it leaves due, and moves the clock on. -/
def step (s : Session) (st : Step) : Answer × Session :=
  match s.act st with
  | (a, s) => (a, { s with manager := s.manager.settle s.clock, clock := s.clock + tick })

def run (s : Session) : List Step → List Answer × Session
  | [] => ([], s)
  | st :: steps =>
    match s.step st with
    | (a, s) =>
      match s.run steps with
      | (as, s) => (a :: as, s)

end Session

end GuildPolicy
