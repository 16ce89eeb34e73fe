import Peering.Compile
import Peering.CommandLine
import Peering.Filter.Meaning
import Peering.Main
import Peering.Text.Quoted
import Peering.Proofs.Calls
import Peering.Proofs.Checks
import Peering.Proofs.Receiving
import Peering.Proofs.Offer
import Peering.Proofs.Sending
import Peering.Proofs.Keys
import Peering.Proofs.ExportDecision
import Peering.Proofs.Leaks
import Peering.Proofs.AllowLists
import Peering.Proofs.Quarantine
import Peering.Proofs.Baseline
import Peering.Proofs.Layout
import Peering.Proofs.Names
import Peering.Proofs.RuleFunctions
import Peering.Proofs.Symbols
import Peering.Proofs.Definitions
import Peering.Proofs.LineBreaks
import Peering.Proofs.Structure
import Peering.Proofs.ExpressionText
import Peering.Proofs.Rendering
import Peering.Proofs.Findings
import Peering.Proofs.CommunityLimit
import Peering.Proofs.Demands
import Peering.Proofs.Validation
import Peering.Proofs.References
import Peering.Proofs.DefinitionOrder
import Peering.Proofs.Confinement
import Peering.Proofs.Digits
import Peering.Proofs.AddressText
import Peering.Proofs.PatternText
import Peering.Proofs.Canonical
import Peering.Proofs.CanonicalLists
import Peering.Proofs.Faithful
import Peering.Proofs.CommunityText
import Peering.Proofs.MemberOrder
import Peering.Proofs.RoundTrip
import Peering.Proofs.Shapes
import Peering.Proofs.Undeclared
import Peering.Proofs.Withholding
import Peering.Proofs.RegistryAnswers
import Peering.Proofs.Locality
import Peering.Proofs.Atomicity
import Peering.Proofs.DefaultRoutes
import Peering.Proofs.Indifference
import Peering.Proofs.Prepends
import Peering.Proofs.ResolvedFields
import Peering.Proofs.HostBits
import Peering.Proofs.TagCodes
import Peering.Proofs.EmittedLists
import Peering.Proofs.EmptySets
import Peering.Proofs.OwnAsn
import Peering.Proofs.Overrides
