import VideoRegistry.CommandLine

/-!
# The program

The command line on the files of the machine.  The mode of a file cannot be read
here, so a header that is replaced gets the mode of a new one; and no other
program can be called, so a formatter is only named.
-/

namespace VideoRegistry.Machine

/-- The cause behind a refusal of the machine. -/
def cause : IO.Error → FileError
  | .noFileOrDirectory .. => .notFound
  | .alreadyExists .. => .alreadyThere
  | .resourceBusy .. => .busy
  | .resourceExhausted .. => .noSpace
  | .inappropriateType _ code _ => if code = 20 then .notDirectory else .isDirectory
  | error => .other (toString error)

def attempt {α : Type} (action : IO α) : IO (Except FileError α) := do
  try
    return .ok (← action)
  catch error =>
    return .error (cause error)

/-- Creates an empty file of a mode under an unused name in a directory. -/
def createTemporary (directory : String) (mode : Mode) : IO String := do
  let path := Path.join directory s!".tmp{← IO.rand 100000 999999}"
  let _ ← IO.FS.Handle.mk path .writeNew
  let right (place : Nat) : IO.AccessRight :=
    ⟨mode.getLsbD (place + 2), mode.getLsbD (place + 1), mode.getLsbD place⟩
  IO.setAccessRights path ⟨right 6, right 3, right 0⟩
  return path

/-- The files of the machine.  A temporary file is held by its path. -/
def files : Files String IO where
  read path := attempt (IO.FS.readBinFile path)
  makeDirs path := attempt (IO.FS.createDirAll path)
  mode? _ := return none
  createTemporary directory mode := attempt (createTemporary directory mode)
  pathOf path := path
  fill path content := attempt (IO.FS.writeBinFile path content)
  persist temporary path := attempt (IO.FS.rename temporary path)
  discard path := do
    let _ ← attempt (IO.FS.removeFile path)
  invoke program _ := IO.eprintln s!"the formatter {program} was not called"

def usage : String :=
  "Usage: video-hpp-gen [-f <FILENAME>]"

/-- Does what the arguments ask for, and gives the exit code. -/
def call (args : List String) : IO UInt32 := do
  match Request.ofArgs args with
  | .help => IO.println usage
  | .version => IO.println "video-hpp-gen 0.1.0"
  | .misuse => IO.eprintln usage
  | .run _ => pure ()
  let settings ← IO.getEnv "VIDEO_HPP_GEN_CONFIG"
  let outcome ← files.call settings args
  match outcome.failure with
  | some chain => IO.eprintln (complaint chain)
  | none => pure ()
  return outcome.code.toUInt32

end VideoRegistry.Machine

def main (args : List String) : IO UInt32 :=
  VideoRegistry.Machine.call args
