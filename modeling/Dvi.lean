import Dvi.Main
import Dvi.Proofs.Stream.Tokens
import Dvi.Proofs.Stream.Prefixes
import Dvi.Proofs.Stream.Together
import Dvi.Proofs.Stream.Redefinitions
import Dvi.Proofs.Machine.Acceptance
import Dvi.Proofs.Machine.Drawing
import Dvi.Proofs.Page.Exact
import Dvi.Proofs.Page.Positions
import Dvi.Proofs.Machine.Linked
import Dvi.Proofs.Machine.Resolved
import Dvi.Proofs.Machine.RandomAccess
import Dvi.Proofs.Machine.Alike
import Dvi.Proofs.Machine.Truncation
import Dvi.Proofs.Machine.Calls
import Dvi.Proofs.Machine.SinglePages
import Dvi.Proofs.Machine.Spelled
import Dvi.Proofs.Machine.SetUp
import Dvi.Proofs.Machine.AnyOrder
import Dvi.Proofs.Stream.PageChain
import Dvi.Proofs.Stream.TrailerEnds
import Dvi.Proofs.Stream.Shortfalls
import Dvi.Proofs.Stream.Spellings
import Dvi.Proofs.Stream.TapeHistories
import Dvi.Proofs.Machine.Steps
import Dvi.Proofs.Machine.Attribution
import Dvi.Proofs.Machine.BegunPages
import Dvi.Proofs.Machine.Brackets
import Dvi.Proofs.Machine.Interleaved
import Dvi.Proofs.Machine.Selected
import Dvi.Proofs.Machine.Coherence
import Dvi.Proofs.Machine.Summary
import Dvi.Proofs.Machine.Warnings
import Dvi.Proofs.Machine.Devices
import Dvi.Proofs.Machine.Drained
import Dvi.Proofs.Machine.FirstDefinitions
import Dvi.Proofs.Tables
import Dvi.Proofs.Search.Remembered
import Dvi.Proofs.Search.Order
import Dvi.Proofs.Search.Preorder
import Dvi.Proofs.Search.Candidates
import Dvi.Proofs.Search.Databases
import Dvi.Proofs.Tool.Directories
import Dvi.Proofs.Font.Answers
import Dvi.Proofs.Font.FirstAnswers
import Dvi.Proofs.Font.Additions
import Dvi.Proofs.Font.Widths
import Dvi.Proofs.Font.MetricsFiles
import Dvi.Proofs.Font.PositionalLines
import Dvi.Proofs.Font.MarkedLines
import Dvi.Proofs.Font.Fields
import Dvi.Proofs.Tool.Listings
import Dvi.Proofs.Document.Legible
import Dvi.Proofs.Tool.Partial
