import Vernacular.Command
import Vernacular.Main
import Vernacular.Proofs.Components
import Vernacular.Proofs.Fresh
import Vernacular.Proofs.KnotParams
import Vernacular.Proofs.Grouping
import Vernacular.Proofs.Nameless
import Vernacular.Proofs.Renaming
import Vernacular.Proofs.Acceptance
import Vernacular.Proofs.Knot
import Vernacular.Proofs.FreeNames
import Vernacular.Proofs.Capture
import Vernacular.Proofs.Emission
import Vernacular.Proofs.Nodes
import Vernacular.Proofs.Recovery
import Vernacular.Proofs.Conversion
import Vernacular.Proofs.WellFormed
import Vernacular.Proofs.BoundNames
import Vernacular.Proofs.Introduced
import Vernacular.Proofs.Unplaced
import Vernacular.Proofs.Verdict
import Vernacular.Proofs.Agreement
import Vernacular.Proofs.Registration
import Vernacular.Proofs.DeclarationOrder
import Vernacular.Proofs.Interleaving
import Vernacular.Proofs.Scoping
import Vernacular.Proofs.PlainEquation
import Vernacular.Proofs.ConstructorNames
import Vernacular.Proofs.Tokens
import Vernacular.Proofs.TermTokens
import Vernacular.Proofs.Reader
import Vernacular.Proofs.ReadBack
import Vernacular.Proofs.OpenDomains
import Vernacular.Proofs.RenamedForm
import Vernacular.Proofs.GuardChain
import Vernacular.Proofs.DefinedNames
import Vernacular.Proofs.RenamedBack
import Vernacular.Proofs.Occurrences
import Vernacular.Proofs.Resolution
import Vernacular.Proofs.KnotKinds
import Vernacular.Proofs.Existentials
import Vernacular.Proofs.RecursiveSynonyms
import Vernacular.Proofs.Generalization
import Vernacular.Proofs.Wrappers
import Vernacular.Proofs.ConversionSteps
import Vernacular.Proofs.FaultPositions
import Vernacular.Proofs.TableHistory
import Vernacular.Proofs.Additions
import Vernacular.Proofs.Delimited
import Vernacular.Proofs.DepthFirst
