import Scriptlet.CommandLine
import Scriptlet.Main
import Scriptlet.Proofs.Congruence
import Scriptlet.Proofs.Frames
import Scriptlet.Proofs.Grammar
import Scriptlet.Proofs.ParseComplete
import Scriptlet.Proofs.Depth
import Scriptlet.Proofs.View
import Scriptlet.Proofs.Plain
import Scriptlet.Proofs.Invariant
import Scriptlet.Proofs.Escape
import Scriptlet.Proofs.Bits
import Scriptlet.Proofs.Monotone
import Scriptlet.Proofs.Scan
import Scriptlet.Proofs.WellFormed
import Scriptlet.Proofs.Extent
import Scriptlet.Proofs.Rejected
import Scriptlet.Proofs.Values
import Scriptlet.Proofs.Outcome
import Scriptlet.Proofs.Agreement
import Scriptlet.Proofs.Raised
import Scriptlet.Proofs.GlobalFrame
import Scriptlet.Proofs.ParseFront
import Scriptlet.Proofs.Places
import Scriptlet.Proofs.Unseen
import Scriptlet.Proofs.Unlogged
import Scriptlet.Proofs.Join
import Scriptlet.Proofs.Rounding
import Scriptlet.Proofs.Numeral
import Scriptlet.Proofs.Render
import Scriptlet.Proofs.Logging
import Scriptlet.Proofs.Growth
import Scriptlet.Proofs.Closed
import Scriptlet.Proofs.Assigned
import Scriptlet.Proofs.Transcript
import Scriptlet.Proofs.Lookahead
import Scriptlet.Proofs.Beginning
import Scriptlet.Proofs.FirstImpossible
import Scriptlet.Proofs.Unmatched
import Scriptlet.Proofs.StringLiteral
import Scriptlet.Proofs.LoopRounds
import Scriptlet.Proofs.Assignment
import Scriptlet.Proofs.Items
import Scriptlet.Proofs.Height
import Scriptlet.Proofs.ParseEnds
import Scriptlet.Proofs.Positions
import Scriptlet.Proofs.Copy
import Scriptlet.Proofs.NumberText
import Scriptlet.Proofs.NumberDisplay
import Scriptlet.Proofs.Operators
import Scriptlet.Proofs.Bracketing
import Scriptlet.Proofs.ReadOnly
import Scriptlet.Proofs.Members
import Scriptlet.Proofs.ScopeHistory
import Scriptlet.Proofs.FileRuns
import Scriptlet.Proofs.FrameRecords
import Scriptlet.Proofs.Elements
import Scriptlet.Proofs.InfinitePower
