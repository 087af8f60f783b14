import PushParsing.Document
import PushParsing.Tree
import PushParsing.Place
import PushParsing.Failure
import PushParsing.Hash
import PushParsing.Text.Ranges
import PushParsing.Text.Digit
import PushParsing.Text.Blank
import PushParsing.Text.Word
import PushParsing.Text.Fold
import PushParsing.Text.Hidden
import PushParsing.Text.Letter
import PushParsing.Text.Numeral
import PushParsing.Text.Quoted
import PushParsing.Pattern.CharSet
import PushParsing.Pattern.Regex
import PushParsing.Pattern.Program
import PushParsing.Pattern.Search
import PushParsing.Pattern.Class
import PushParsing.Pattern.Utf8
import PushParsing.Pattern.Size
import PushParsing.Pattern.Reader
import PushParsing.Pattern
import PushParsing.Grammar
import PushParsing.Pattern.Standard
import PushParsing.Pattern.Cache
import PushParsing.Grammar.Draft
import PushParsing.Memo.Table
import PushParsing.Engine.Accumulator
import PushParsing.Engine.Store
import PushParsing.Engine.Machine
import PushParsing.Engine.Report
import PushParsing.Outline
import PushParsing.Script
import PushParsing.Session
import PushParsing.Proofs.History
import PushParsing.Proofs.Effects
import PushParsing.Proofs.Best
import PushParsing.Proofs.MemoTable
import PushParsing.Proofs.OrderedMap
import PushParsing.Proofs.Delivery
import PushParsing.Proofs.Growth
import PushParsing.Proofs.Accumulation
import PushParsing.Proofs.Derivation
import PushParsing.Proofs.Drafting
import PushParsing.Proofs.Boundary
import PushParsing.Proofs.Lines
import PushParsing.Proofs.Printing
import PushParsing.Proofs.Invariant
import PushParsing.Proofs.Soundness
import PushParsing.Proofs.Targets
import PushParsing.Proofs.Reach
import PushParsing.Proofs.Ledger
import PushParsing.Proofs.Completeness
import PushParsing.Proofs.Termination
import PushParsing.Proofs.Forwarding
import PushParsing.Proofs.Backtracking
import PushParsing.Proofs.Simulation
import PushParsing.Proofs.Calls
import PushParsing.Proofs.Refinement
import PushParsing.Proofs.Priming
import PushParsing.Proofs.WellFormed
import PushParsing.Proofs.Canonical
import PushParsing.Proofs.Furthest
import PushParsing.Proofs.Silence
import PushParsing.Proofs.Finality
import PushParsing.Proofs.Root
import PushParsing.Proofs.Deepest
import PushParsing.Proofs.Diary
import PushParsing.Proofs.Identity
import PushParsing.Proofs.Twins
import PushParsing.Proofs.Lockstep
import PushParsing.Proofs.Conversation
import PushParsing.Proofs.Shift
import PushParsing.Proofs.Rightward
import PushParsing.Proofs.Guards
import PushParsing.Proofs.Coverage
import PushParsing.Proofs.Documented
import PushParsing.Proofs.Anchoring
