namespace GuildPolicy.Path

/-- The parts of a path, which have slashes between them. -/
def split : List Char → List (List Char)
  | [] => [[]]
  | c :: cs =>
    if c = '/' then [] :: split cs
    else
      match split cs with
      | [] => [[c]]
      | part :: parts => (c :: part) :: parts

def unsplit : List (List Char) → List Char
  | [] => []
  | [part] => part
  | part :: parts => part ++ '/' :: unsplit parts

def isAbsolute (path : String) : Bool := path.toList.head? = some '/'

/-- A path below another; an absolute path is below none. One slash is put between the two unless
the left one is empty or ends with a slash. -/
def join (dir path : String) : String :=
  if isAbsolute path then path
  else if dir = "" ∨ dir.toList.getLast? = some '/' then dir ++ path
  else dir ++ "/" ++ path

/-- Whether a part moves along a path. Empty parts and dots do not. -/
def moves (part : List Char) : Bool := part ≠ [] && part ≠ ['.']

def names (path : String) : List String := ((split path.toList).filter moves).map String.ofList

/-- Whether a slash ends a path, so that only a directory can be there. -/
def endsInSlash (path : String) : Bool := path.toList.getLast? = some '/'

/-- The name that a path gives to what is at its end; none if it ends in one or two dots or is
made of slashes only. -/
def lastName? (path : String) : Option String :=
  (((split path.toList).filter (· ≠ [])).getLast?.map String.ofList).filter fun name =>
    name ≠ "." ∧ name ≠ ".."

/-- The parts of a path that count when it is cut: those that move along it, and a dot at its
very start. -/
def counts (first : Bool) (part : List Char) : Bool := moves part || first && part = ['.']

/-- The beginnings of a path that end with a part that counts, the longest first. Parts come last
first, and `relative` says that the first may be a dot that counts. -/
def beginnings (relative : Bool) : List (List Char) → List (List (List Char))
  | [] => []
  | part :: before =>
    if counts (relative && before.isEmpty) part then (part :: before) :: beginnings relative before
    else beginnings relative before

/-- Where a path starts, as a path. -/
def root (path : String) : String := if isAbsolute path then "/" else ""

/-- The paths that lead to a path, the longest first; none is the empty path, and none the root. A
path without names is led to by no other. -/
def parents? (path : String) : Option (List String) :=
  let absolute := isAbsolute path
  let parts := split (if absolute then path.toList.tail else path.toList)
  match beginnings (!absolute) parts.reverse with
  | [] => none
  | _ :: shorter =>
    some (shorter.map fun parts => root path ++ String.ofList (unsplit parts.reverse))

/-- The path without its last name, if it has one. -/
def parent? (path : String) : Option String := (parents? path).map (·.headD (root path))

/-- Whether a file name is something, a dot, and an extension without dots. -/
def hasExtension (name extension : String) : Bool :=
  let suffix := '.' :: extension.toList
  suffix.length < name.toList.length && suffix.isSuffixOf name.toList

end GuildPolicy.Path
