import Templating.Config.Description
import Templating.Files.Folder
import Templating.Main
import Templating.Node.Sameness
import Templating.Walk.Rules
import Templating.Proofs.Linking.Chain
import Templating.Proofs.Linking.Coverage
import Templating.Proofs.Linking.Identity
import Templating.Proofs.Linking.References
import Templating.Proofs.Filter.Rendering
import Templating.Proofs.Filter.Chains
import Templating.Proofs.Compilation
import Templating.Proofs.Node.Pieces
import Templating.Proofs.Linking.Substitution
import Templating.Proofs.Loading.Answers
import Templating.Proofs.Loading.Dependencies
import Templating.Proofs.Path
import Templating.Proofs.Grammar.Parsed
import Templating.Proofs.Grammar.RoundTrip
import Templating.Proofs.Loading.Opening
import Templating.Proofs.Loading.Composition
import Templating.Proofs.Loading.Nesting
import Templating.Proofs.Loading.Cycles
import Templating.Proofs.Loading.Unlinked
import Templating.Proofs.Loading.Entry
import Templating.Proofs.Loading.Reads
import Templating.Proofs.Loading.Traces
import Templating.Proofs.Safety
import Templating.Proofs.Linking.Lineage
import Templating.Proofs.Linking.Idle
import Templating.Proofs.Linking.Reentrancy
import Templating.Proofs.Linking.Commuting
import Templating.Proofs.Linking.Validation
import Templating.Proofs.Linking.Relinking
import Templating.Proofs.Grammar.Inclusion
import Templating.Proofs.Constant.Options
import Templating.Proofs.Linking.Framing
import Templating.Proofs.Linking.PlacedText
import Templating.Proofs.Linking.Sealing
import Templating.Proofs.Path.Lexical
import Templating.Proofs.Walk.Discipline
import Templating.Proofs.Grammar.Lines
import Templating.Proofs.Token.Tiling
import Templating.Proofs.Grammar.Outlines
import Templating.Proofs.Grammar.Diagnosis
import Templating.Proofs.Error.Pointing
import Templating.Proofs.Walk.Siblings
import Templating.Proofs.Grammar.Layout
