import VideoRegistry.Main
import VideoRegistry.Store.Files
import VideoRegistry.Proofs.MemberGraph
import VideoRegistry.Proofs.Outcome
import VideoRegistry.Proofs.Ownership
import VideoRegistry.Proofs.Lists
import VideoRegistry.Proofs.Closure
import VideoRegistry.Proofs.Route
import VideoRegistry.Proofs.Ordering
import VideoRegistry.Proofs.Reading
import VideoRegistry.Proofs.WellRead
import VideoRegistry.Proofs.WellFormed
import VideoRegistry.Proofs.Acceptance
import VideoRegistry.Proofs.Checking
import VideoRegistry.Proofs.Accepted
import VideoRegistry.Proofs.Embedding
import VideoRegistry.Proofs.Filling
import VideoRegistry.Proofs.Substitution
import VideoRegistry.Proofs.CamelCase
import VideoRegistry.Proofs.Emission
import VideoRegistry.Proofs.Precedence
import VideoRegistry.Proofs.Conservation
import VideoRegistry.Proofs.Stability
import VideoRegistry.Proofs.DeclarationOrder
import VideoRegistry.Proofs.Claiming
import VideoRegistry.Proofs.EnumBlocks
import VideoRegistry.Proofs.EmissionFaults
import VideoRegistry.Proofs.Declarations
import VideoRegistry.Proofs.QualifiedNames
import VideoRegistry.Proofs.Defaults
import VideoRegistry.Proofs.Comparisons
import VideoRegistry.Proofs.Brackets
import VideoRegistry.Proofs.ArrayGrammar
import VideoRegistry.Proofs.Licence
import VideoRegistry.Proofs.Dimensions
import VideoRegistry.Proofs.Passes
import VideoRegistry.Proofs.Insertion
import VideoRegistry.Proofs.Repetition
import VideoRegistry.Proofs.Agreement
import VideoRegistry.Proofs.Alike
import VideoRegistry.Proofs.AlikePasses
import VideoRegistry.Proofs.AlikeElements
import VideoRegistry.Proofs.AlikeReading
import VideoRegistry.Proofs.AlikeDocuments
import VideoRegistry.Proofs.Lineless
import VideoRegistry.Proofs.StructOrder
import VideoRegistry.Proofs.Comments
import VideoRegistry.Proofs.Noticing
import VideoRegistry.Proofs.UnknownElements
import VideoRegistry.Proofs.FileLaws
import VideoRegistry.Proofs.StoreLaws
import VideoRegistry.Proofs.SafeRun
import VideoRegistry.Proofs.NativeBitfields
import VideoRegistry.Proofs.AttributeRules
import VideoRegistry.Proofs.Folding
import VideoRegistry.Proofs.HeaderMode
import VideoRegistry.Proofs.Descent
import VideoRegistry.Proofs.ByteSearch
import VideoRegistry.Proofs.HeaderNames
