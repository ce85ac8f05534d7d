import SchemaMigration.Migration.Catalog
/-! # File trees

The files that scripts are read from and written to, as a value: a list of paths, each with
what stands there. A path is looked up part by part, and a link on the way is followed. The
failures are those that a file system reports for the same path. -/
namespace SchemaMigration

open MigrationFile (pathParts)

/-- What stands at a path. -/
inductive Entry where
  | file (bytes : List UInt8)
  | directory
  | link (target : String)
  deriving DecidableEq, Repr

/-- A tree of files. The empty list of parts is its root, a directory. -/
structure Files where
  entries : List (List String × Entry)
  /-- The directory that relative paths start from. -/
  current : List String
  deriving Repr

namespace Files

/-- The tree without files. -/
def empty : Files := ⟨[], []⟩

/-- The longest name of an entry, in bytes. -/
def longestName : Nat := 255

/-- The longest path, in bytes. -/
def longestPath : Nat := 4095

/-- The most links that are followed on the way to an entry. -/
def mostLinks : Nat := 40

/-- What stands at a path that holds no links. -/
def at? (t : Files) (path : List String) : Option Entry :=
  if path.isEmpty then some .directory
  else (t.entries.find? fun e => e.1 == path).map (·.2)

/-- Where the parts of a path start. -/
def origin (t : Files) (path : String) : List String :=
  if path.startsWith "/" then [] else t.current

/-- The parts to follow. A slash at the end asks for a directory, as a point behind it does. -/
def route (path : String) : List String :=
  pathParts path ++ if path.endsWith "/" || path.endsWith "/." then ["."] else []

/-- Follows parts from a directory up to the first link on the way. The answer is the place
that is reached, and behind a link the parts that are still to follow. With `new`, nothing
has to stand at the last part. -/
def stretch (t : Files) (new : Bool) :
    List String → List String → Except IoFault (List String × Option (List String))
  | place, [] => .ok (place, none)
  | place, part :: rest =>
    if t.at? place ≠ some .directory then .error .notDirectory
    else if part = "." then t.stretch new place rest
    else if part = ".." then t.stretch new place.dropLast rest
    else if part.utf8ByteSize > longestName then .error .nameTooLong
    else match t.at? (place ++ [part]) with
      | none => if new && rest.isEmpty then .ok (place ++ [part], none) else .error .notFound
      | some (.link target) =>
        .ok (if target.startsWith "/" then [] else place, some (route target ++ rest))
      | some _ => t.stretch new (place ++ [part]) rest

/-- Follows parts from a directory, and not more links than given. -/
def walk (t : Files) (new : Bool) : Nat → List String → List String →
    Except IoFault (List String)
  | links, place, parts => do
    match ← t.stretch new place parts, links with
    | (place, none), _ => return place
    | (_, some _), 0 => throw .tooManyLinks
    | (place, some rest), links + 1 => t.walk new links place rest

/-- Refuses what is no path at all. -/
def checkPath (path : String) : Except IoFault Unit :=
  if path.isEmpty then .error .notFound
  else if path.toList.contains '\x00' then .error .zeroInPath
  else if path.utf8ByteSize > longestPath then .error .nameTooLong
  else .ok ()

/-- The path without links that a path leads to. -/
def resolve (t : Files) (path : String) : Except IoFault (List String) := do
  checkPath path
  t.walk false mostLinks (t.origin path) (route path)

/-- What a path leads to. -/
def entry (t : Files) (path : String) : Except IoFault Entry := do
  let place ← t.resolve path
  match t.at? place with
  | some e => return e
  | none => throw .notFound

/-- Whether a path leads to a directory. -/
def isDirectory (t : Files) (path : String) : Bool :=
  match t.entry path with
  | .ok .directory => true
  | _ => false

/-- The bytes of the file that a path leads to. -/
def read (t : Files) (path : String) : Except IoFault (List UInt8) := do
  match ← t.entry path with
  | .file bytes => return bytes
  | _ => throw .isDirectory

/-- The names in the directory that a path leads to, with what stands there. -/
def list (t : Files) (path : String) : Except IoFault (List (String × Entry)) := do
  let place ← t.resolve path
  if t.at? place ≠ some .directory then throw .notDirectory
  return t.entries.filterMap fun (p, e) =>
    if p.dropLast = place then p.getLast?.map fun name => (name, e) else none

/-- Puts something at a place, instead of what stands there. -/
def set (t : Files) (place : List String) (e : Entry) : Files :=
  if t.entries.any (fun old => old.1 == place) then
    { t with entries := t.entries.map fun old => if old.1 == place then (place, e) else old }
  else { t with entries := t.entries ++ [(place, e)] }

/-- The directory of an entry and its name: the directory is what the path without its last
part leads to. -/
def parent (t : Files) (start parts : List String) : Except IoFault (List String × String) := do
  let place ← t.walk false mostLinks start parts.dropLast
  if t.at? place ≠ some .directory then throw .notDirectory
  match parts.getLast? with
  | none => throw .alreadyThere
  | some name =>
    if name = ".." then throw .alreadyThere
    if name.utf8ByteSize > longestName then throw .nameTooLong
    return (place, name)

/-- Makes an entry where none is. -/
def create (t : Files) (start parts : List String) (e : Entry) : Except IoFault Files := do
  let (place, name) ← t.parent start parts
  if (t.at? (place ++ [name])).isSome then throw .alreadyThere
  return t.set (place ++ [name]) e

/-- Makes a new, empty file. -/
def createFile (t : Files) (path : String) : Except IoFault Files := do
  checkPath path
  t.create (t.origin path) (pathParts path) (.file [])

/-- Makes the directory with given parts, the last one first, and those above it that are
missing. -/
def createAll (t : Files) (start : List String) : List String → Except IoFault Files
  | [] => .ok t
  | part :: above =>
    let parts := (part :: above).reverse
    let accept (t : Files) (fault : IoFault) : Except IoFault Files :=
      match (t.walk false mostLinks start parts).map t.at? with
      | .ok (some .directory) => .ok t
      | _ => .error fault
    match t.create start parts .directory with
    | .ok t => .ok t
    | .error .notFound => do
      let t ← t.createAll start above
      match t.create start parts .directory with
      | .ok t => return t
      | .error fault => accept t fault
    | .error fault => accept t fault

/-- Makes a directory and those above it that are missing. -/
def createDirectories (t : Files) (path : String) : Except IoFault Files := do
  if path.isEmpty then return t
  checkPath path
  t.createAll (t.origin path) (pathParts path).reverse

/-- Puts something at a path, and makes the directories above it. A file is written through
the links that lead to it. -/
def write (t : Files) (path : String) (e : Entry) : Files :=
  let start := t.origin path
  let parts := pathParts path
  let t := (t.createAll start parts.dropLast.reverse).toOption.getD t
  let place := match e with
    | .file _ => t.walk true mostLinks start parts
    | _ => (t.parent start parts).map fun (place, name) => place ++ [name]
  match place with
  | .ok place => t.set place e
  | .error _ => t

/-- Takes away what stands at a path, and all that stands below it. -/
def erase (t : Files) (path : String) : Files :=
  match t.parent (t.origin path) (pathParts path) with
  | .ok (place, name) =>
    { t with entries := t.entries.filter fun e => !(place ++ [name]).isPrefixOf e.1 }
  | .error _ => t

/-- A directory and a path that starts from it in one path. -/
def join (directory name : String) : String :=
  if name.startsWith "/" then name
  else if directory.isEmpty ∨ directory.endsWith "/" then directory ++ name
  else directory ++ "/" ++ name

/-- The files below a place with their sizes: each directory in the order of its names, and
no deeper than the bound. -/
def sizes (t : Files) : Nat → List String → String → List (String × Nat)
  | 0, _, _ => []
  | depth + 1, place, label =>
    let names := t.entries.filterMap fun (p, e) =>
      if p.dropLast = place then p.getLast?.map fun name => (name, e) else none
    (names.mergeSort fun a b => !(b.1 < a.1)).flatMap fun (name, _) =>
      let shown := join label name
      match t.walk false mostLinks place [name] with
      | .error _ => [(shown, 0)]
      | .ok target => match t.at? target with
        | some .directory => t.sizes depth target shown
        | some (.file bytes) => [(shown, bytes.length)]
        | _ => [(shown, 0)]

/-- The files below a directory with their sizes. -/
def listing (t : Files) (directory : String) : List (String × Nat) :=
  match t.resolve directory with
  | .ok place => t.sizes 64 place ""
  | .error _ => []

/-- The script files of a directory, in the order in which the directory names them. Only
plain files count: a link is none. -/
def scriptFiles (t : Files) (directory : String) : Except Failure (List MigrationFile) :=
  match t.list directory with
  | .error fault => .error (.file directory fault)
  | .ok names => .ok (names.filterMap fun (name, e) =>
      match e with
      | .file _ => MigrationFile.parse? (join directory name)
      | _ => none)

/-- The catalog of a directory. Directories in it are not searched. -/
def catalog (t : Files) (directory : String) : Except Failure Catalog := do
  Catalog.empty.insertAll (← t.scriptFiles directory)

end Files

end SchemaMigration
