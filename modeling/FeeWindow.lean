import FeeWindow.Codec.Chain
import FeeWindow.Codec.History
import FeeWindow.Codec.Settings
import FeeWindow.Counters.Exposition
import FeeWindow.Json.Reader
import FeeWindow.Json.Writer
import FeeWindow.Pattern.Matches
import FeeWindow.Proofs.Amount.Bytes
import FeeWindow.Proofs.Amount.Grouped
import FeeWindow.Proofs.Amount.Quantity
import FeeWindow.Proofs.Binary64.Closest
import FeeWindow.Proofs.Binary64.Conversion
import FeeWindow.Proofs.Binary64.Faithful
import FeeWindow.Proofs.Binary64.Precision
import FeeWindow.Proofs.Binary64.Quotients
import FeeWindow.Proofs.Bytes.Hex
import FeeWindow.Proofs.Chain.Updates
import FeeWindow.Proofs.Counters.Exposition
import FeeWindow.Proofs.FeeMarket.Adjustment
import FeeWindow.Proofs.FeeMarket.Bounds
import FeeWindow.Proofs.FeeMarket.Monotonicity
import FeeWindow.Proofs.History.Footprint
import FeeWindow.Proofs.History.GasRatios
import FeeWindow.Proofs.History.Joining
import FeeWindow.Proofs.History.Outcome
import FeeWindow.Proofs.History.Percentiles
import FeeWindow.Proofs.History.Projection
import FeeWindow.Proofs.Json.Forms
import FeeWindow.Proofs.Json.RoundTrip
import FeeWindow.Proofs.Json.Views
import FeeWindow.Proofs.Pattern.Counts
import FeeWindow.Proofs.Pattern.Motion
import FeeWindow.Proofs.Pattern.Occurrence
import FeeWindow.Proofs.Pattern.Plain
import FeeWindow.Proofs.Pattern.Spans
import FeeWindow.Proofs.Reward.Coverage
import FeeWindow.Proofs.Reward.FullCoverage
import FeeWindow.Proofs.Reward.HigherFees
import FeeWindow.Proofs.Reward.LeastFee
import FeeWindow.Proofs.Reward.Lookups
import FeeWindow.Proofs.Reward.Walk
import FeeWindow.Proofs.Service.Accounting
import FeeWindow.Proofs.Service.Configuration
import FeeWindow.Proofs.Service.Logging
import FeeWindow.Proofs.Service.Report
import FeeWindow.Proofs.Uint256.Bytes
import FeeWindow.Proofs.Uint256.Json
import FeeWindow.Proofs.Uint256.Message
import FeeWindow.Proofs.Window.Resolution
import FeeWindow.Service.Run
import FeeWindow.Session
import FeeWindow.Uint256.Message
