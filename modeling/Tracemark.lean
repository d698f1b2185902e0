import Tracemark.Text.Blank
import Tracemark.Text.Octets
import Tracemark.Text.Numeral
import Tracemark.Text.Digit
import Tracemark.Text.Word
import Tracemark.Interval
import Tracemark.OrderedMap
import Tracemark.Registry
import Tracemark.Extensions
import Tracemark.Html
import Tracemark.Stash
import Tracemark.Alignment.RestoreMap
import Tracemark.Offsets.LineIndex
import Tracemark.Stage.Whitespace
import Tracemark.Stage.FrontMatter
import Tracemark.Stage.FencedCode
import Tracemark.Offsets.Attributor
import Tracemark.Offsets.SettingsFile
import Tracemark.Main
import Tracemark.Proofs.Text.BlockLines
import Tracemark.Proofs.Tree.Links
import Tracemark.Proofs.Tree.Matching
import Tracemark.Proofs.Tree.Growth
import Tracemark.Proofs.Dispatch.Pairing
import Tracemark.Proofs.Grammar.Leaf
import Tracemark.Proofs.Grammar.Split
import Tracemark.Proofs.Grammar.Container
import Tracemark.Proofs.Grammar.Reference
import Tracemark.Proofs.Offsets.Claiming
import Tracemark.Proofs.Offsets.Stamping
import Tracemark.Proofs.Dispatch.Turns
import Tracemark.Proofs.Offsets.Delegation
import Tracemark.Proofs.Offsets.Traced
import Tracemark.Proofs.Offsets.Transparency
import Tracemark.Proofs.Alignment.Script
import Tracemark.Proofs.Alignment.Sequential
import Tracemark.Proofs.Alignment.BlankAnchor
import Tracemark.Proofs.Alignment.Location
import Tracemark.Proofs.Alignment.Clipping
import Tracemark.Proofs.Offsets.Notes
import Tracemark.Proofs.Offsets.Bounds
import Tracemark.Proofs.Alignment.Identity
import Tracemark.Proofs.Offsets.Portions
import Tracemark.Proofs.Offsets.Faithful
import Tracemark.Proofs.Offsets.RoundTrip
import Tracemark.Proofs.Offsets.Coverage
import Tracemark.Proofs.Offsets.Offers
import Tracemark.Proofs.Offsets.Ownership
import Tracemark.Proofs.Offsets.Unmapped
import Tracemark.Proofs.Grammar.Wrapper
import Tracemark.Proofs.Dispatch.Calls
import Tracemark.Proofs.Grammar.Actors
import Tracemark.Proofs.Offsets.Crew
import Tracemark.Proofs.Offsets.Reentrance
import Tracemark.Proofs.Grammar.Derivation
import Tracemark.Proofs.Grammar.DerivedRun
import Tracemark.Proofs.Grammar.Shape
import Tracemark.Proofs.Grammar.Content
import Tracemark.Proofs.Dispatch.Ending
import Tracemark.Proofs.Grammar.Ending
import Tracemark.Proofs.Offsets.Ending
import Tracemark.Proofs.Tree.Acyclic
import Tracemark.Proofs.Html.Reading
import Tracemark.Proofs.Html.Walk
import Tracemark.Proofs.Tree.Edit
import Tracemark.Proofs.Tree.Mirrored
import Tracemark.Proofs.Tree.Descent
import Tracemark.Proofs.Dispatch.Editing
import Tracemark.Proofs.Grammar.Editing
import Tracemark.Proofs.Dispatch.Budget
import Tracemark.Proofs.Offsets.Writing
import Tracemark.Proofs.Offsets.Handling
import Tracemark.Proofs.Grammar.Mover
import Tracemark.Proofs.Offsets.Company
import Tracemark.Proofs.Offsets.Fruitless
import Tracemark.Proofs.Offsets.Starts
import Tracemark.Proofs.Offsets.Flags
import Tracemark.Proofs.Alignment.Translation
import Tracemark.Proofs.Alignment.GivenUp
import Tracemark.Proofs.Alignment.Binding
import Tracemark.Proofs.Alignment.Hull
import Tracemark.Proofs.Alignment.Injection
import Tracemark.Proofs.Alignment.Groups
import Tracemark.Proofs.Offsets.Groups
import Tracemark.Proofs.Offsets.Scanning
import Tracemark.Proofs.Text.JoinedBlocks
import Tracemark.Proofs.Dispatch.Relocation
import Tracemark.Proofs.Grammar.Marked
import Tracemark.Proofs.Grammar.Quoting
import Tracemark.Proofs.Grammar.Listing
import Tracemark.Proofs.Stage.Placeholders
import Tracemark.Proofs.Stage.Fences
import Tracemark.Proofs.Offsets.Recording
import Tracemark.Proofs.Grammar.Coding
import Tracemark.Proofs.Stage.Entries
import Tracemark.Proofs.Registry
import Tracemark.Proofs.Offsets.Addressing
