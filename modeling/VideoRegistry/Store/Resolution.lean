import VideoRegistry.Path
import VideoRegistry.Store.Basic

/-!
# Paths in a file tree

A path is followed part by part.  Each part but the last must lead to a
directory; a dot stays where it is and two dots lead back up.
-/

namespace VideoRegistry.Store

/-- The length in bytes of the longest name of an entry. -/
def longestName : Nat := 255

/-- The length in bytes of the longest path. -/
def longestPath : Nat := 4095

/-- Fails unless a directory stands at a location. -/
def enter (store : Store) (location : Location) : Except FileError Unit :=
  match store.get? location with
  | none => .error .notFound
  | some .directory => .ok ()
  | some (.file ..) => .error .notDirectory

def checkName (name : String) : Except FileError Unit :=
  if name.utf8ByteSize ≤ longestName then .ok () else .error .nameTooLong

/-- Follows the parts of a path from a location. -/
def follow (store : Store) (location : Location) :
    List String → Except FileError Location
  | [] => .ok location
  | part :: rest => do
      store.enter location
      if part = "." then follow store location rest
      else if part = ".." then follow store location.dropLast rest
      else
        checkName part
        follow store (location ++ [part]) rest

/-- Refuses what no path may be. -/
def checkPath (path : String) : Except FileError Unit :=
  if path.toList.contains '\x00' then .error .unusablePath
  else if path.isEmpty then .error .notFound
  else if path.utf8ByteSize ≤ longestPath then .ok ()
  else .error .nameTooLong

/-- Where a path starts. -/
def origin (store : Store) (path : String) : Location :=
  if Path.isAbsolute path then [] else store.workDir

/-- The location that a path leads to, and what stands there. -/
def find (store : Store) (path : String) : Except FileError (Location × Entry) := do
  checkPath path
  let location ← store.follow (store.origin path) (Path.parts path)
  match store.get? location with
  | none => .error .notFound
  | some (.file mode content) =>
      if Path.endsInSlash path then .error .notDirectory
      else .ok (location, .file mode content)
  | some .directory => .ok (location, .directory)

/-- The directory that the last part of a path belongs to, and that part.  The
root has a dot for its last part. -/
def slot (store : Store) (path : String) :
    Except FileError (Location × String) := do
  checkPath path
  let parts := Path.parts path
  let directory ← store.follow (store.origin path) parts.dropLast
  store.enter directory
  return (directory, parts.getLast?.getD ".")

/-- Whether a last part leads to a directory without naming it. -/
def isAnonymous (name : String) : Bool :=
  name = "." || name = ".."

def isDirectory (store : Store) (path : String) : Bool :=
  match store.find path with
  | .ok (_, .directory) => true
  | _ => false

end VideoRegistry.Store
