import Matchbook.Binary64
import Matchbook.Bundle.Basic
import Matchbook.Config.Basic
import Matchbook.Config.Codec
import Matchbook.Config.Text
import Matchbook.Decimal.Arithmetic
import Matchbook.Decimal.Basic
import Matchbook.Decimal.PowerOfTen
import Matchbook.Decimal.Rounding
import Matchbook.Decimal.Text
import Matchbook.Flow.Arena
import Matchbook.Flow.Collection
import Matchbook.Flow.Graph
import Matchbook.Flow.OrderItems
import Matchbook.Flow.Stream
import Matchbook.Hash.Sha256
import Matchbook.Json.Basic
import Matchbook.Json.Printer
import Matchbook.Json.Reader
import Matchbook.Order.Basic
import Matchbook.Order.Codec
import Matchbook.Order.Loaded
import Matchbook.Order.Summary
import Matchbook.Price.Crossing
import Matchbook.Price.Ramp
import Matchbook.Proofs.Bundle.Verdict
import Matchbook.Proofs.Decimal.Difference
import Matchbook.Proofs.Decimal.Division
import Matchbook.Proofs.Decimal.Magnitude
import Matchbook.Proofs.Decimal.Nearest
import Matchbook.Proofs.Decimal.Operations
import Matchbook.Proofs.Decimal.Order
import Matchbook.Proofs.Decimal.Text
import Matchbook.Proofs.Decimal.Value
import Matchbook.Proofs.Except
import Matchbook.Proofs.Flow.Account
import Matchbook.Proofs.Flow.Balance
import Matchbook.Proofs.Flow.Cap
import Matchbook.Proofs.Flow.Charge
import Matchbook.Proofs.Flow.Drain
import Matchbook.Proofs.Flow.Fairness
import Matchbook.Proofs.Flow.Graph
import Matchbook.Proofs.Flow.Growth
import Matchbook.Proofs.Flow.Membership
import Matchbook.Proofs.Flow.Network
import Matchbook.Proofs.Flow.Placing
import Matchbook.Proofs.Flow.Refusal
import Matchbook.Proofs.Flow.Release
import Matchbook.Proofs.Flow.Role
import Matchbook.Proofs.Flow.Roster
import Matchbook.Proofs.Flow.Round
import Matchbook.Proofs.Flow.Saturate
import Matchbook.Proofs.Flow.Seek
import Matchbook.Proofs.Flow.Sound
import Matchbook.Proofs.Flow.Stream
import Matchbook.Proofs.Flow.Trading
import Matchbook.Proofs.Flow.Unlink
import Matchbook.Proofs.Json.Text
import Matchbook.Proofs.Order.Binding
import Matchbook.Proofs.Order.Codec
import Matchbook.Proofs.Ordering
import Matchbook.Proofs.Price.Crossing
import Matchbook.Proofs.Price.Ends
import Matchbook.Proofs.Price.Exact
import Matchbook.Proofs.Price.Moderate
import Matchbook.Proofs.Price.Monotone
import Matchbook.Proofs.Price.Scan
import Matchbook.Proofs.Price.Tame
import Matchbook.Proofs.Query.Order
import Matchbook.Proofs.Record.Codec
import Matchbook.Proofs.Record.Naming
import Matchbook.Proofs.Related
import Matchbook.Proofs.Rule.Mirror
import Matchbook.Proofs.Rule.Query
import Matchbook.Proofs.Rule.Siblings
import Matchbook.Proofs.Rule.Violations
import Matchbook.Proofs.Search.Assignment
import Matchbook.Proofs.Search.Browsing
import Matchbook.Proofs.Search.Complete
import Matchbook.Proofs.Search.Failure
import Matchbook.Proofs.Search.Fill
import Matchbook.Proofs.Search.Filling
import Matchbook.Proofs.Search.Greedy
import Matchbook.Proofs.Search.Linking
import Matchbook.Proofs.Search.Naming
import Matchbook.Proofs.Search.Optimal
import Matchbook.Proofs.Search.Overflow
import Matchbook.Proofs.Search.Paging
import Matchbook.Proofs.Search.Pairing
import Matchbook.Proofs.Search.Prospect
import Matchbook.Proofs.Search.Ranking
import Matchbook.Proofs.Search.Reading
import Matchbook.Proofs.Search.Run
import Matchbook.Proofs.Search.Scan
import Matchbook.Proofs.Search.Serving
import Matchbook.Proofs.Search.Sharing
import Matchbook.Proofs.Search.Standing
import Matchbook.Proofs.Search.Symmetry
import Matchbook.Proofs.Search.Threading
import Matchbook.Proofs.Search.Tracking
import Matchbook.Proofs.Search.Units
import Matchbook.Proofs.Search.Vetting
import Matchbook.Proofs.Sorting
import Matchbook.Proofs.Store.History
import Matchbook.Query.Basic
import Matchbook.Query.Codec
import Matchbook.Query.Field
import Matchbook.Record.Basic
import Matchbook.Record.Codec
import Matchbook.Record.Stamp
import Matchbook.Rule.Basic
import Matchbook.Rule.Chain
import Matchbook.Rule.Codec
import Matchbook.Search.Codec
import Matchbook.Search.Environment
import Matchbook.Search.Event
import Matchbook.Search.Filling
import Matchbook.Search.Outcome
import Matchbook.Search.Paging
import Matchbook.Search.Pairing
import Matchbook.Search.Run
import Matchbook.Store.Basic
import Matchbook.Store.Table
import Matchbook.Text.Hex
import Matchbook.Text.Invisible
import Matchbook.Text.Quoted
import Matchbook.Toml.Basic
import Matchbook.Toml.Document
import Matchbook.Toml.Lexical
import Matchbook.Toml.Scalar
