import SentenceGen.CharacterClass
import SentenceGen.CharacterClass.Registry
import SentenceGen.Config
import SentenceGen.Config.Assignments
import SentenceGen.Config.Environment
import SentenceGen.Config.File
import SentenceGen.Datum
import SentenceGen.Datum.Access
import SentenceGen.Datum.Printer
import SentenceGen.Datum.Reader
import SentenceGen.Decimal.Double
import SentenceGen.Decimal.Fixed
import SentenceGen.Decimal.Notation
import SentenceGen.Decimal.Parse
import SentenceGen.Decimal.Shortest
import SentenceGen.Decision
import SentenceGen.Decision.Create
import SentenceGen.Decision.Random
import SentenceGen.Decision.Recording
import SentenceGen.Decision.Script
import SentenceGen.Decision.Source
import SentenceGen.Expansion
import SentenceGen.Fault
import SentenceGen.Fault.Details
import SentenceGen.Fault.Kind
import SentenceGen.Fault.Message
import SentenceGen.Files
import SentenceGen.Files.Path
import SentenceGen.Files.Trouble
import SentenceGen.Generator
import SentenceGen.Grammar
import SentenceGen.Logging.Field
import SentenceGen.Logging.Format
import SentenceGen.Logging.Operation
import SentenceGen.Logging.Record
import SentenceGen.Logging.Setup
import SentenceGen.Proofs.Accounts
import SentenceGen.Proofs.Additions
import SentenceGen.Proofs.Ancestry
import SentenceGen.Proofs.Answers
import SentenceGen.Proofs.Bindings
import SentenceGen.Proofs.Building
import SentenceGen.Proofs.Callings
import SentenceGen.Proofs.Calls
import SentenceGen.Proofs.Ceilings
import SentenceGen.Proofs.CharacterSets
import SentenceGen.Proofs.Checks
import SentenceGen.Proofs.Chronicles
import SentenceGen.Proofs.Closing
import SentenceGen.Proofs.Collisions
import SentenceGen.Proofs.Companions
import SentenceGen.Proofs.Conduct
import SentenceGen.Proofs.Correspondence
import SentenceGen.Proofs.Cutoffs
import SentenceGen.Proofs.Derivation
import SentenceGen.Proofs.Derives
import SentenceGen.Proofs.Dialogues
import SentenceGen.Proofs.Exclusions
import SentenceGen.Proofs.Extension
import SentenceGen.Proofs.FirstOccurrences
import SentenceGen.Proofs.Formation
import SentenceGen.Proofs.Growth
import SentenceGen.Proofs.Guarantee
import SentenceGen.Proofs.Inclusion
import SentenceGen.Proofs.Interchange
import SentenceGen.Proofs.KeyedRuns
import SentenceGen.Proofs.KeyedScripts
import SentenceGen.Proofs.Levels
import SentenceGen.Proofs.Lockstep
import SentenceGen.Proofs.LongerScripts
import SentenceGen.Proofs.Observation
import SentenceGen.Proofs.OrderedSets
import SentenceGen.Proofs.Outlines
import SentenceGen.Proofs.OutputLimit
import SentenceGen.Proofs.PassThrough
import SentenceGen.Proofs.Phases
import SentenceGen.Proofs.Placement
import SentenceGen.Proofs.Preorder
import SentenceGen.Proofs.Projections
import SentenceGen.Proofs.RandomRuns
import SentenceGen.Proofs.Recordings
import SentenceGen.Proofs.Refusals
import SentenceGen.Proofs.Registration
import SentenceGen.Proofs.Registries
import SentenceGen.Proofs.Rendering
import SentenceGen.Proofs.Reordering
import SentenceGen.Proofs.Replay
import SentenceGen.Proofs.Rereading
import SentenceGen.Proofs.Resolution
import SentenceGen.Proofs.Scripts
import SentenceGen.Proofs.Sections
import SentenceGen.Proofs.SharedRules
import SentenceGen.Proofs.Simulation
import SentenceGen.Proofs.Sites
import SentenceGen.Proofs.Soundness
import SentenceGen.Proofs.Spelling
import SentenceGen.Proofs.Steps
import SentenceGen.Proofs.Termination
import SentenceGen.Proofs.TextReplacement
import SentenceGen.Proofs.Transparency
import SentenceGen.Proofs.Turns
import SentenceGen.Proofs.Verdicts
import SentenceGen.Proofs.Walks
import SentenceGen.Proofs.Watching
import SentenceGen.Proofs.Whereabouts
import SentenceGen.Proofs.Wording
import SentenceGen.Random.Bits
import SentenceGen.Random.Twister
import SentenceGen.Replacement
import SentenceGen.Replacement.Program
import SentenceGen.Rule
import SentenceGen.Sink
import SentenceGen.Text.Blank
import SentenceGen.Text.Category
import SentenceGen.Text.CategoryTable
import SentenceGen.Text.Lines
import SentenceGen.Text.Quoted
import SentenceGen.Tree
import SentenceGen.Tree.Render
import SentenceGen.Yaml.Cursor
import SentenceGen.Yaml.Printer
import SentenceGen.Yaml.Quotes
import SentenceGen.Yaml.Reader
import SentenceGen.Yaml.Scalar
import SentenceGen.Yaml.Style
