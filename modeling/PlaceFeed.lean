import PlaceFeed.Text.Scalars
import PlaceFeed.Command
import PlaceFeed.Main
import PlaceFeed.Proofs.Arguments
import PlaceFeed.Proofs.Boundaries
import PlaceFeed.Proofs.Building
import PlaceFeed.Proofs.Cleaning
import PlaceFeed.Proofs.Continuation
import PlaceFeed.Proofs.Disguises
import PlaceFeed.Proofs.Duplicates
import PlaceFeed.Proofs.Equality
import PlaceFeed.Proofs.ExplicitSettings
import PlaceFeed.Proofs.Framing
import PlaceFeed.Proofs.Gates
import PlaceFeed.Proofs.Identifiers
import PlaceFeed.Proofs.IllFormed
import PlaceFeed.Proofs.Invocation
import PlaceFeed.Proofs.LineEndings
import PlaceFeed.Proofs.Loading
import PlaceFeed.Proofs.Loops
import PlaceFeed.Proofs.MapPolicy
import PlaceFeed.Proofs.OutboundForms
import PlaceFeed.Proofs.Refusals
import PlaceFeed.Proofs.Reordering
import PlaceFeed.Proofs.Slices
import PlaceFeed.Proofs.Stability
import PlaceFeed.Proofs.Truncation
import PlaceFeed.Proofs.Validation
import PlaceFeed.Proofs.WireSafety
