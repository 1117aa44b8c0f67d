import VideoRegistry.Store.Resolution

/-!
# Operations on a file tree

Each operation either succeeds with the next tree or fails and changes nothing;
only making a directory with its parents may fail after it has made some of
them.
-/

namespace VideoRegistry.Store

/-- Makes a directory whose parent is there. -/
def makeDir (store : Store) (path : String) : Except FileError Store := do
  let (directory, name) ← store.slot path
  if isAnonymous name then .error .alreadyThere
  else
    checkName name
    match store.get? (directory ++ [name]) with
    | some _ => .error .alreadyThere
    | none => store.place (directory ++ [name]) .directory

/-- Makes a directory unless it is there. -/
def ensureDir (store : Store) (path : String) : Except FileError Unit × Store :=
  match store.makeDir path with
  | .ok next => (.ok (), next)
  | .error error =>
      (if store.isDirectory path then .ok () else .error error, store)

/-- Makes a directory and all its parents that are not there. -/
def makeDirs (store : Store) (path : String) : Except FileError Unit × Store :=
  go store path.toList.reverse
where
  /-- Makes the directory of a path given last character first. -/
  go (store : Store) (path : List Char) : Except FileError Unit × Store :=
    if path.isEmpty then (.ok (), store)
    else
      let written := String.ofList path.reverse
      match store.makeDir written with
      | .ok next => (.ok (), next)
      | .error .notFound =>
          match _hparent : Path.parentReversed? path with
          | none => (.error .notFound, store)
          | some parent =>
              match go store parent with
              | (.error error, next) => (.error error, next)
              | (.ok (), next) => next.ensureDir written
      | .error error =>
          (if store.isDirectory written then .ok () else .error error, store)
  termination_by path.length
  decreasing_by exact Path.length_lt_of_parentReversed? ‹_›

/-- The bytes of a file. -/
def read (store : Store) (path : String) : Except FileError ByteArray := do
  match ← store.find path with
  | (_, .file _ content) => return content
  | (_, .directory) => .error .isDirectory

/-- The mode of the file at a path, if there is one. -/
def mode? (store : Store) (path : String) : Option Mode :=
  match store.find path with
  | .ok (_, .file mode _) => some mode
  | _ => none

/-- Gives a file its content.  A new file gets the given mode less the mask, one
that is there keeps its own. -/
def save (store : Store) (path : String) (mode : Mode) (content : ByteArray) :
    Except FileError Store := do
  let (directory, name) ← store.slot path
  if isAnonymous name || Path.endsInSlash path then .error .isDirectory
  else
    checkName name
    match store.get? (directory ++ [name]) with
    | some .directory => .error .isDirectory
    | some (.file found _) => store.place (directory ++ [name]) (.file found content)
    | none => store.place (directory ++ [name]) (.file (mode.less store.mask) content)

/-- Gives a file a mode. -/
def setMode (store : Store) (path : String) (mode : Mode) :
    Except FileError Store := do
  match ← store.find path with
  | (location, .file _ content) => return store.put location (.file mode content)
  | (_, .directory) => return store

/-- Takes a file away. -/
def remove (store : Store) (path : String) : Except FileError Store := do
  match ← store.find path with
  | (location, .file ..) => return store.drop location
  | (_, .directory) => .error .isDirectory

/-- Puts a file where a path leads, in the place of a file that is there. -/
def persist (store : Store) (location : Location) (path : String) :
    Except FileError Store := do
  let (directory, name) ← store.slot path
  if isAnonymous name then .error .busy
  else
    checkName name
    if Path.endsInSlash path then .error .notDirectory
    else
      match store.get? location, store.get? (directory ++ [name]) with
      | none, _ => .error .notFound
      | some _, some .directory => .error .isDirectory
      | some entry, _ => return (store.drop location).put (directory ++ [name]) entry

/-- The names that temporary files may get when there are so many entries. -/
def temporaryNames (count : Nat) : List String :=
  (List.range (count + 1)).map fun index => s!".tmp{index}"

/-- Creates an empty file with an unused name in a directory. -/
def createTemporary (store : Store) (directory : String) (mode : Mode) :
    Except FileError (Location × Store) := do
  let (location, _) ← store.find directory
  store.enter location
  match (temporaryNames store.entries.length).find? fun name =>
      (store.get? (location ++ [name])).isNone with
  | none => .error .alreadyThere
  | some name =>
      let next ← store.place (location ++ [name])
        (.file (mode.less store.mask) ByteArray.empty)
      return (location ++ [name], next)

/-- Gives the file at a location its content. -/
def fill (store : Store) (location : Location) (content : ByteArray) :
    Except FileError Store :=
  match store.get? location with
  | some (.file mode _) => store.place location (.file mode content)
  | _ => .error .notFound

end VideoRegistry.Store
