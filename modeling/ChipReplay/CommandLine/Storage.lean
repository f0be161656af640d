import ChipReplay.Bytes.Basic
/-!
# Stored files

Files and directories form a tree. A place in it is the list of the names from the root on. The
text of a path is walked name by name: it counts from the working directory unless it begins with
a slash, and all that has something behind it, even a dot or a slash, has to be a directory.
-/

namespace ChipReplay.CommandLine

/-- Names from the root down. -/
abbrev Place := List String

/-- Why a file operation fails. -/
inductive StorageError where
  | notFound
  | permissionDenied
  | alreadyExists
  | notDirectory
  | isDirectory
  | nameTooLong
  /-- Anything else, with the system's own text. -/
  | other (text : String)
deriving DecidableEq

/-- The wording of a failure. -/
def StorageError.message : StorageError → String
  | notFound => "No such file or directory (os error 2)"
  | permissionDenied => "Permission denied (os error 13)"
  | alreadyExists => "File exists (os error 17)"
  | notDirectory => "Not a directory (os error 20)"
  | isDirectory => "Is a directory (os error 21)"
  | nameTooLong => "File name too long (os error 36)"
  | other text => text

/-- The path from the root to a place. -/
def Place.text (place : Place) : String := "/" ++ String.intercalate "/" place

/-- What stands at a place. -/
inductive Entry where
  | file (data : ByteArray)
  | directory (entries : List (String × Entry))

namespace Entry

/-- What stands at `place`, counted from an entry. -/
def find? : Entry → Place → Option Entry
  | entry, [] => some entry
  | file _, _ :: _ => none
  | directory entries, name :: rest =>
    match entries.lookup name with
    | some entry => entry.find? rest
    | none => none

/-- An entry with `new` at `place`. Missing directories on the way are there then, and nothing
changes behind a file. -/
def put (new : Entry) : Entry → Place → Entry
  | _, [] => new
  | file data, _ :: _ => file data
  | directory entries, name :: rest =>
    let entry := (entries.lookup name).getD (directory [])
    directory ((name, put new entry rest) :: entries.filter fun e => e.1 ≠ name)

end Entry

/-! ## Paths -/

/-- The most bytes that a name can have. -/
def maxNameSize : Nat := 255

/-- The most bytes that a path can have. -/
def maxPathSize : Nat := 4095

/-- What a path consists of. -/
structure Path where
  /-- Whether it begins with a slash. -/
  absolute : Bool
  /-- What stands between slashes. -/
  names : List String
  /-- Whether it ends with a slash. -/
  closed : Bool

namespace Path

/-- What `text` consists of. -/
def ofText (text : String) : Path where
  absolute := text.startsWith "/"
  names := (text.splitOn "/").filter (· ≠ "")
  closed := text.endsWith "/"

/-- What `text` consists of, if it is a path. -/
def read (text : String) : Except StorageError Path :=
  if text = "" then .error .notFound
  else if maxPathSize < text.utf8ByteSize then .error .nameTooLong
  else .ok (ofText text)

/-- Whether `p` is the name `name` apart from slashes and dots behind it. -/
def isName (p : Path) (name : String) : Bool :=
  match p.names with
  | first :: rest => !p.absolute && first == name && rest.all (· == ".")
  | [] => false

/-- The texts of the directories on the way to `p`, the nearest first. -/
def parents (p : Path) : List String :=
  let names := p.names.filter (· ≠ ".")
  (List.range names.length).tail.reverse.map fun n =>
    (if p.absolute then "/" else "") ++ String.intercalate "/" (names.take n)

/-- The path of `name` in the directory `dir`. -/
def join (dir name : String) : String :=
  if dir.endsWith "/" then dir ++ name else dir ++ "/" ++ name

end Path

/-- Makes the first of the directories `paths`, and those behind it that are missing before it.
One that is there need not be made. -/
def makeDirectories {m : Type → Type} [Monad m] (make : String → m (Except StorageError Unit))
    (isDirectory : String → m Bool) : List String → m (Except StorageError Unit)
  | [] => return .ok ()
  | path :: parents => do
    let made ← make path
    let made ←
      if made matches .error .notFound then
        match ← makeDirectories make isDirectory parents with
        | .ok () => make path
        | .error e => return .error e
      else pure made
    match made with
    | .error .alreadyExists =>
      return if ← isDirectory path then .ok () else .error .alreadyExists
    | made => return made

/-! ## Storage -/

/-- Files and directories. -/
structure Storage where
  /-- The working directory. -/
  working : Place
  /-- The root, which is a directory. -/
  root : Entry

namespace Storage

/-- A working directory with nothing in it. -/
def fresh (working : Place) : Storage where
  working := working
  root := Entry.put (.directory []) (.directory []) working

/-- What stands at `place`. -/
def find? (s : Storage) (place : Place) : Option Entry := s.root.find? place

/-- `entry` stands at `place`. -/
def put (s : Storage) (place : Place) (entry : Entry) : Storage :=
  { s with root := entry.put s.root place }

/-- Whether a directory stands at `place`. -/
def isDirectory (s : Storage) (place : Place) : Bool := s.find? place matches some (.directory _)

/-- What stands under `name` in the directory `place`. -/
def look (s : Storage) (place : Place) (name : String) : Except StorageError (Option Entry) :=
  if maxNameSize < name.utf8ByteSize then .error .nameTooLong
  else .ok (s.find? (place ++ [name]))

/-- Where `name` leads from the directory `place`. A dot stays, and two dots lead out of it. -/
def enter (s : Storage) (place : Place) (name : String) : Except StorageError Place :=
  if name = "." then .ok place
  else if name = ".." then .ok place.dropLast
  else
    match s.look place name with
    | .error e => .error e
    | .ok none => .error .notFound
    | .ok (some _) => .ok (place ++ [name])

/-- Where `names` lead from `place`. -/
def walk (s : Storage) (place : Place) : List String → Except StorageError Place
  | [] => .ok place
  | name :: rest => do
    if !s.isDirectory place then throw .notDirectory
    s.walk (← s.enter place name) rest

/-- Where a path begins. -/
def start (s : Storage) (p : Path) : Place := if p.absolute then [] else s.working

/-- Where `path` leads, and what stands there. -/
def open? (s : Storage) (path : String) : Except StorageError (Place × Entry) := do
  let p ← Path.read path
  let place ← s.walk (s.start p) p.names
  match s.find? place with
  | none => throw .notFound
  | some (.directory entries) => return (place, .directory entries)
  | some (.file data) =>
    if p.closed then throw .notDirectory
    return (place, .file data)

/-- The directory in which `p` ends and its name there. There is no name if `p` is the root or
ends with dots, which is a directory that exists. -/
def target (s : Storage) (p : Path) : Except StorageError (Option (Place × String)) :=
  match p.names.getLast? with
  | none => .ok none
  | some name => do
    let place ← s.walk (s.start p) p.names.dropLast
    if !s.isDirectory place then throw .notDirectory
    return if name = "." ∨ name = ".." then none else some (place, name)

/-- A file with `data` is written at `path`. -/
def writeFile (s : Storage) (path : String) (data : ByteArray) : Except StorageError Storage := do
  let p ← Path.read path
  match ← s.target p with
  | none => throw .isDirectory
  | some (place, name) =>
    if p.closed then throw .isDirectory
    match ← s.look place name with
    | some (.directory _) => throw .isDirectory
    | _ => return s.put (place ++ [name]) (.file data)

/-- The directory `path` is made in a directory that exists. -/
def makeDirectory (s : Storage) (path : String) : Except StorageError Storage := do
  let p ← Path.read path
  match ← s.target p with
  | none => throw .alreadyExists
  | some (place, name) =>
    if (← s.look place name).isSome then throw .alreadyExists
    return s.put (place ++ [name]) (.directory [])

/-- The directory `path` is created, with all it lies in. Also answers why that fails, which may
be after some of it. -/
def createDirectory (s : Storage) (path : String) : Except StorageError Unit × Storage :=
  (makeDirectories (m := StateM Storage)
    (fun path s =>
      match s.makeDirectory path with
      | .ok s => (.ok (), s)
      | .error e => (.error e, s))
    (fun path s => (s.open? path matches .ok (_, .directory _), s))
    (path :: (Path.ofText path).parents)).run s

/-- The names and contents of the files in the directory `place`, in the order in which they were
written. -/
def filesIn (s : Storage) (place : Place) : List (String × ByteArray) :=
  match s.find? place with
  | some (.directory entries) =>
    entries.reverse.filterMap fun (name, entry) =>
      match entry with
      | .file data => some (name, data)
      | .directory _ => none
  | _ => []

end Storage
end ChipReplay.CommandLine
