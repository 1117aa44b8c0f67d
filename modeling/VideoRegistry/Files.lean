/-!
# Access to files

What a run needs of the place where files are kept, and the ways in which that
place may refuse.  The file tree of `Store` offers these operations as functions
on a value; the program offers them on the files of its machine.
-/

namespace VideoRegistry

/-- Why an operation on files is refused. -/
inductive FileError where
  | notFound
  | busy
  | alreadyThere
  | notDirectory
  | isDirectory
  | noSpace
  | nameTooLong
  | notText
  | unusablePath
  | other (text : String)
deriving DecidableEq, Repr

def FileError.message : FileError → String
  | .notFound => "No such file or directory (os error 2)"
  | .busy => "Device or resource busy (os error 16)"
  | .alreadyThere => "File exists (os error 17)"
  | .notDirectory => "Not a directory (os error 20)"
  | .isDirectory => "Is a directory (os error 21)"
  | .noSpace => "No space left on device (os error 28)"
  | .nameTooLong => "File name too long (os error 36)"
  | .notText => "stream did not contain valid UTF-8"
  | .unusablePath => "file name contained an unexpected NUL byte"
  | .other text => text

/-- The permission bits of a file: reading, writing and executing, for its owner,
its group and all others. -/
abbrev Mode := BitVec 9

namespace Mode

/-- The mode that is left when a mask takes its bits away. -/
def less (mode mask : Mode) : Mode :=
  mode &&& ~~~mask

/-- The mode asked for when a header is written for the first time. -/
def forHeader : Mode := 0o644

end Mode

/-- Operations on files, in a monad of their effects.  A temporary file is held
by a value of type `τ` until it either takes the place of another file or is
discarded. -/
structure Files (τ : Type) (m : Type → Type) where
  read (path : String) : m (Except FileError ByteArray)
  makeDirs (path : String) : m (Except FileError Unit)
  mode? (path : String) : m (Option Mode)
  createTemporary (directory : String) (mode : Mode) : m (Except FileError τ)
  pathOf (temporary : τ) : String
  fill (temporary : τ) (content : ByteArray) : m (Except FileError Unit)
  persist (temporary : τ) (path : String) : m (Except FileError Unit)
  discard (temporary : τ) : m Unit
  invoke (program : String) (args : List String) : m Unit

/-- The text of a file. -/
def Files.readText {τ : Type} {m : Type → Type} [Monad m] (files : Files τ m)
    (path : String) : m (Except FileError String) := do
  match ← files.read path with
  | .error error => return .error error
  | .ok content =>
      match String.fromUTF8? content with
      | some text => return .ok text
      | none => return .error .notText

end VideoRegistry
