import VideoRegistry.Diagnostic.Cause
import VideoRegistry.Template

/-!
# Failures of a whole run

Everything that can keep a header from being generated from a text.
-/

namespace VideoRegistry

inductive Failure where
  | malformed
  | spec (error : SpecError)
  | noCopyright
  | template (mismatch : Template.Mismatch)
deriving DecidableEq, Repr

def Failure.message : Failure → String
  | .malformed => "parsing registry XML"
  | .spec error => error.text
  | .noCopyright => "missing copyright message"
  | .template mismatch => mismatch.message

/-- Takes a located fault for a failure of the run. -/
def Checked.orFail {α : Type} (result : Checked α) : Except Failure α :=
  result.mapError Failure.spec

end VideoRegistry
