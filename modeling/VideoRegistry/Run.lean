import VideoRegistry.Config.Reader
import VideoRegistry.Files
import VideoRegistry.Generate

/-!
# Runs

A run reads a registry, generates its header, writes the header through a
temporary file beside it and calls the formatter.  The header on disk is
replaced as a whole or not at all.
-/

namespace VideoRegistry

/-- Why a header is not written. -/
inductive WriteFailure where
  | makingDirectory (path : String) (error : FileError)
  | creating (directory : String) (error : FileError)
  | filling (path : String) (error : FileError)
  | replacing (path : String) (error : FileError)
deriving DecidableEq, Repr

/-- What failed, followed by the causes in order. -/
def WriteFailure.chain : WriteFailure → List String
  | .makingDirectory path error => [s!"creating output directory {path}", error.message]
  | .creating directory error =>
      [s!"creating temporary file in {directory}", error.message]
  | .filling path error => [s!"writing temporary file {path}", error.message]
  | .replacing path error =>
      [s!"writing output to {path}",
        s!"failed to persist temporary file: {error.message}", error.message]

inductive RunFailure where
  | reading (path : String) (error : FileError)
  | generating (failure : Failure)
  | writing (failure : WriteFailure)
deriving DecidableEq, Repr

def RunFailure.chain : RunFailure → List String
  | .reading path error => [s!"reading registry {path}", error.message]
  | .generating failure => [failure.message]
  | .writing failure => failure.chain

inductive ConfigFailure where
  | unreadable (path : String) (error : FileError)
  | malformed (path : String)
deriving DecidableEq, Repr

def ConfigFailure.message : ConfigFailure → String
  | .unreadable path error =>
      s!"failed to read config file {path}: " ++ error.message
  | .malformed path => s!"failed to parse config file {path}"

variable {τ : Type} {m : Type → Type} [Monad m]

/-- The configuration of a settings file. -/
def Files.loadConfig (files : Files τ m) (path : String) :
    m (Except ConfigFailure Config) := do
  match ← files.readText path with
  | .error error => return .error (.unreadable path error)
  | .ok source =>
      match Config.parse? path source with
      | none => return .error (.malformed path)
      | some config => return .ok config

/-- The header of a registry file. -/
def Files.generate (files : Files τ m) (config : Config) (input : String) :
    m (Except RunFailure String) := do
  match ← files.readText input with
  | .error error => return .error (.reading input error)
  | .ok source =>
      return (VideoRegistry.generate config source).mapError RunFailure.generating

/-- Fills a temporary file and lets it take the place of a header; a temporary
file that fails to do so is discarded.  A move that fails hands the temporary file
back in its error, and the discard that follows stands for the drop of the file
together with that error, which only its text outlives. -/
def Files.replaceBy (files : Files τ m) (temporary : τ) (path text : String) :
    m (Except WriteFailure Unit) := do
  match ← files.fill temporary text.toUTF8 with
  | .error error =>
      files.discard temporary
      return .error (.filling (files.pathOf temporary) error)
  | .ok () =>
      match ← files.persist temporary path with
      | .error error =>
          files.discard temporary
          return .error (.replacing path error)
      | .ok () => return .ok ()

/-- Writes a header through a temporary file in its directory.  The mode asked
for is that of the file it replaces. -/
def Files.writeHeader (files : Files τ m) (path text : String) :
    m (Except WriteFailure Unit) := do
  let directory := Path.directory path
  match ← files.makeDirs directory with
  | .error error => return .error (.makingDirectory directory error)
  | .ok () =>
      let mode := (← files.mode? path).getD Mode.forHeader
      match ← files.createTemporary directory mode with
      | .error error => return .error (.creating directory error)
      | .ok temporary => files.replaceBy temporary path text

/-- Calls a formatter on a header; what becomes of it is not asked. -/
def Files.format (files : Files τ m) (formatter : FormatterConfig)
    (path : String) : m Unit :=
  files.invoke formatter.program (formatter.args ++ [path])

/-- Generates and writes the header of a configuration, from the given registry
if there is one, and tells where the header is. -/
def Files.run (files : Files τ m) (config : Config) (input : Option String) :
    m (Except RunFailure String) := do
  match ← files.generate config (input.getD config.input) with
  | .error failure => return .error failure
  | .ok header =>
      match ← files.writeHeader config.output.file header with
      | .error failure => return .error (.writing failure)
      | .ok () =>
          match config.formatter with
          | some formatter => files.format formatter config.output.file
          | none => pure ()
          return .ok config.output.file

end VideoRegistry
