import SwapRouting.Amount
import SwapRouting.Cache.Expiring
import SwapRouting.Cache.Routes
import SwapRouting.Candidate
import SwapRouting.Config
import SwapRouting.Context
import SwapRouting.Decimal.Basic
import SwapRouting.Decimal.Double
import SwapRouting.Decimal.Literal
import SwapRouting.Decimal.Text
import SwapRouting.Dict
import SwapRouting.Digits
import SwapRouting.Error
import SwapRouting.Format.Json
import SwapRouting.Format.Notation
import SwapRouting.Format.Records
import SwapRouting.Format.Settings
import SwapRouting.Format.SnapshotFile
import SwapRouting.Format.Source
import SwapRouting.Format.Yaml
import SwapRouting.Generation
import SwapRouting.Json.Document
import SwapRouting.Json.Printer
import SwapRouting.Json.Token
import SwapRouting.Json.Value
import SwapRouting.LiquidityIndex
import SwapRouting.Metrics
import SwapRouting.Outcome
import SwapRouting.Overwrite.Store
import SwapRouting.Overwrite.Validation
import SwapRouting.Pool.Basic
import SwapRouting.Pool.Curve
import SwapRouting.Pool.Kind
import SwapRouting.Proofs.Amount.Ratio
import SwapRouting.Proofs.Cache.TimedMap
import SwapRouting.Proofs.Config
import SwapRouting.Proofs.Format.SnapshotFile
import SwapRouting.Proofs.Generation.Listing
import SwapRouting.Proofs.Generation.Reordering
import SwapRouting.Proofs.Json.Document
import SwapRouting.Proofs.Overwrite.Loading
import SwapRouting.Proofs.Overwrite.Persistence
import SwapRouting.Proofs.Overwrite.Record
import SwapRouting.Proofs.Overwrite.Refusal
import SwapRouting.Proofs.Overwrite.Validation
import SwapRouting.Proofs.Quote.Requoting
import SwapRouting.Proofs.Route.Completeness
import SwapRouting.Proofs.Route.Fees
import SwapRouting.Proofs.Route.LeastInput
import SwapRouting.Proofs.Route.Reserves
import SwapRouting.Proofs.Route.TotalFee
import SwapRouting.Proofs.Router.Bypass
import SwapRouting.Proofs.Router.CacheContent
import SwapRouting.Proofs.Router.CustomRoutes
import SwapRouting.Proofs.Router.Fallback
import SwapRouting.Proofs.Router.Ingestion
import SwapRouting.Proofs.Router.Pinning
import SwapRouting.Proofs.Router.Repetition
import SwapRouting.Proofs.Router.SingleRoute
import SwapRouting.Proofs.Router.Tiers
import SwapRouting.Proofs.Search.Limits
import SwapRouting.Proofs.Search.Queue
import SwapRouting.Proofs.Search.Reversal
import SwapRouting.Proofs.Search.Shortest
import SwapRouting.Proofs.Search.Soundness
import SwapRouting.Proofs.Search.Threshold
import SwapRouting.Proofs.Split.Convergence
import SwapRouting.Proofs.Split.GreedyChoice
import SwapRouting.Proofs.Split.Improvement
import SwapRouting.Proofs.Split.Optimize
import SwapRouting.Proofs.Split.Payment
import SwapRouting.Proofs.Split.StableRanking
import SwapRouting.Quote
import SwapRouting.Route.Basic
import SwapRouting.Route.Price
import SwapRouting.Route.Trade
import SwapRouting.Router.Basic
import SwapRouting.Router.Candidates
import SwapRouting.Router.Ingestion
import SwapRouting.Router.Quoting
import SwapRouting.Router.StateFiles
import SwapRouting.Search
import SwapRouting.Settings.App
import SwapRouting.Settings.Document
import SwapRouting.Settings.Path
import SwapRouting.Settings.Value
import SwapRouting.Snapshot
import SwapRouting.Split.Optimize
import SwapRouting.Split.Ranking
import SwapRouting.Split.Rebalance
import SwapRouting.SwapMethod
import SwapRouting.TakerFee
import SwapRouting.Tokens
import SwapRouting.Toml.Document
import SwapRouting.Toml.Table
import SwapRouting.Toml.Text
import SwapRouting.Toml.Value
import SwapRouting.Yaml.Block
import SwapRouting.Yaml.Cell
import SwapRouting.Yaml.Document
import SwapRouting.Yaml.Name
import SwapRouting.Yaml.Number
import SwapRouting.Yaml.Scalar
import SwapRouting.Yaml.Token
