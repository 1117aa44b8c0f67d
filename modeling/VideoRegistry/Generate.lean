import VideoRegistry.Header.Basic
import VideoRegistry.Registry.Check
import VideoRegistry.Registry.Order
import VideoRegistry.Registry.Reader
import VideoRegistry.Xml.Tree

/-!
# From a registry text to a header text

A document is read, its lists are closed and ordered, the registry is checked,
and the header is emitted.
-/

namespace VideoRegistry

/-- The registry of a document, ready to be emitted. -/
def Registry.ofDocument (config : Config) (document : Xml.Document) :
    Except Failure Registry := do
  let registry ← readDocument config document
  let registry ← registry.close.orFail
  let registry ← registry.order.orFail
  (registry.check config.names.typeLead).orFail

/-- The header of a document. -/
def generateFrom (config : Config) (document : Xml.Document) :
    Except Failure String := do
  let registry ← Registry.ofDocument config document
  registry.emit config

/-- The header of a registry text. -/
def generate (config : Config) (source : String) : Except Failure String :=
  match Xml.Document.parse? source with
  | none => .error .malformed
  | some document => generateFrom config document

end VideoRegistry
