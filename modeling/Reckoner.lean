import Reckoner.Binary64.Arithmetic
import Reckoner.Binary64.Basic
import Reckoner.Binary64.Bits
import Reckoner.Binary64.Rounding
import Reckoner.Cache
import Reckoner.Decimal.Layout
import Reckoner.Decimal.Numeral
import Reckoner.Decimal.Shortest
import Reckoner.Evaluation
import Reckoner.Fault
import Reckoner.Journal
import Reckoner.Operator
import Reckoner.Proofs.Agreement
import Reckoner.Proofs.Attempt
import Reckoner.Proofs.Balance
import Reckoner.Proofs.Grammar
import Reckoner.Proofs.Group
import Reckoner.Proofs.Held
import Reckoner.Proofs.HeldGroups
import Reckoner.Proofs.Juxtaposition
import Reckoner.Proofs.Literal
import Reckoner.Proofs.Nesting
import Reckoner.Proofs.Options
import Reckoner.Proofs.Outcome
import Reckoner.Proofs.Pieces
import Reckoner.Proofs.Placement
import Reckoner.Proofs.Reach
import Reckoner.Proofs.Reading
import Reckoner.Proofs.Recency
import Reckoner.Proofs.Scanning
import Reckoner.Proofs.Spelling
import Reckoner.Proofs.Transparency
import Reckoner.Proofs.Tree
import Reckoner.Proofs.YardMoves
import Reckoner.Reduction
import Reckoner.Scan
import Reckoner.Session
import Reckoner.Settings
import Reckoner.Term
import Reckoner.Text.Blank
import Reckoner.Text.DecimalDigit
import Reckoner.Text.Printable
import Reckoner.Text.Quoted
import Reckoner.Validity
import Reckoner.Yard
import Reckoner.Proofs.Forest
import Reckoner.Proofs.Accounting
import Reckoner.Proofs.Factors
import Reckoner.Proofs.Inclusion
import Reckoner.Proofs.Nearest
import Reckoner.Proofs.DecimalValue
import Reckoner.Proofs.ShortestDecimal
import Reckoner.Proofs.Printing
import Reckoner.Proofs.NumberShape
import Reckoner.Proofs.Rescan
import Reckoner.Proofs.Display
import Reckoner.Proofs.Remainder
import Reckoner.Proofs.NearestDouble
import Reckoner.Proofs.WrittenDecimal
import Reckoner.Proofs.Unquoting
import Reckoner.Proofs.Log
