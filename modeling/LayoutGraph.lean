import LayoutGraph.Main
import LayoutGraph.Source.Listing
import LayoutGraph.Store.Choice
import LayoutGraph.Store.Faulty
import LayoutGraph.Store.Traced
import LayoutGraph.Proofs.Chain
import LayoutGraph.Proofs.Keep
import LayoutGraph.Proofs.Store.Database
import LayoutGraph.Proofs.Store.Memory
import LayoutGraph.Proofs.Store.Choice
import LayoutGraph.Proofs.History
import LayoutGraph.Proofs.Survey.Yield
import LayoutGraph.Proofs.Recorder.Agreement
import LayoutGraph.Proofs.Recorder.Idle
import LayoutGraph.Proofs.Passing
import LayoutGraph.Proofs.Absorb
import LayoutGraph.Proofs.Ledger.Basic
import LayoutGraph.Proofs.Ledger.Memory
import LayoutGraph.Proofs.Ledger.Field
import LayoutGraph.Proofs.Ledger.Pass
import LayoutGraph.Proofs.Ledger.Steps
import LayoutGraph.Proofs.Ledger.Whole
import LayoutGraph.Proofs.Survey.Failing
import LayoutGraph.Proofs.Members
import LayoutGraph.Proofs.Bindings
import LayoutGraph.Proofs.Merging
import LayoutGraph.Proofs.Survey.Reference
import LayoutGraph.Proofs.Survey.Walks
import LayoutGraph.Proofs.Survey.Content
import LayoutGraph.Proofs.Survey.Faithful
import LayoutGraph.Proofs.Survey.Whole
import LayoutGraph.Proofs.Source.Coherent
import LayoutGraph.Proofs.Exactness
import LayoutGraph.Proofs.Store.Sound
import LayoutGraph.Proofs.Store.Unreliable
import LayoutGraph.Proofs.Recorder.Struck
import LayoutGraph.Proofs.Growth
import LayoutGraph.Proofs.Recorder.Plain
import LayoutGraph.Proofs.Store.Relist
import LayoutGraph.Proofs.Recorder.Laid
import LayoutGraph.Proofs.Retry
import LayoutGraph.Proofs.Store.Mirror
import LayoutGraph.Proofs.Recorder.Twins
import LayoutGraph.Proofs.Depth
import LayoutGraph.Proofs.Simulation
import LayoutGraph.Proofs.Survey.Nesting
import LayoutGraph.Proofs.Survey.Room
import LayoutGraph.Proofs.Recorder.Sight
import LayoutGraph.Proofs.Recorder.SideBySide
import LayoutGraph.Proofs.Recovery
import LayoutGraph.Proofs.Survey.Prefix
import LayoutGraph.Proofs.Stopping
import LayoutGraph.Proofs.TakenKeys
import LayoutGraph.Proofs.Reopening
import LayoutGraph.Proofs.Store.Erring
import LayoutGraph.Proofs.Change.Traced
import LayoutGraph.Proofs.HalfDone
import LayoutGraph.Proofs.Declarations
import LayoutGraph.Proofs.Linking
import LayoutGraph.Proofs.Dwarf.Outcome
import LayoutGraph.Proofs.Dwarf.Ascent
import LayoutGraph.Proofs.Dwarf.Forest
import LayoutGraph.Proofs.Dwarf.Parts
import LayoutGraph.Proofs.Extraction
import LayoutGraph.Proofs.Store.Order
import LayoutGraph.Proofs.Store.Serving
import LayoutGraph.Proofs.Change.Check
import LayoutGraph.Proofs.Change.Retyping
import LayoutGraph.Proofs.Change.Renaming
import LayoutGraph.Proofs.Change.Replacing
import LayoutGraph.Proofs.Change.Overriding
import LayoutGraph.Proofs.Change.Screening
import LayoutGraph.Proofs.Change.Reapplying
import LayoutGraph.Proofs.Survey.Way
import LayoutGraph.Proofs.Survey.InTurn
import LayoutGraph.Proofs.Aliases
import LayoutGraph.Proofs.Naming
import LayoutGraph.Proofs.Indirection
import LayoutGraph.Proofs.Dimensions
import LayoutGraph.Proofs.Survey.Extent
import LayoutGraph.Proofs.Sizing
import LayoutGraph.Proofs.Survey.Grounded
import LayoutGraph.Proofs.References
import LayoutGraph.Proofs.Recorder.Counted
import LayoutGraph.Proofs.Recorder.Gained
import LayoutGraph.Proofs.Accounts
import LayoutGraph.Proofs.Dwarf.Number
import LayoutGraph.Proofs.Dwarf.Standing
import LayoutGraph.Proofs.Constants
import LayoutGraph.Proofs.Text.Numeral
import LayoutGraph.Proofs.Change.Constant
import LayoutGraph.Proofs.Dwarf.Origin
import LayoutGraph.Proofs.Extents
import LayoutGraph.Proofs.Dwarf.Expression
import LayoutGraph.Proofs.Places
import LayoutGraph.Proofs.Dwarf.Stretch
import LayoutGraph.Proofs.Targets
import LayoutGraph.Proofs.Store.Representation
import LayoutGraph.Proofs.Store.DatabaseFile
import LayoutGraph.Proofs.Recorder.Interleaving
import LayoutGraph.Proofs.Definitions
