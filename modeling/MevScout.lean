import MevScout.Pool.V2Reserves
import MevScout.Pool.Liquidity
import MevScout.Pool.Attribution
import MevScout.Pool.PaperSwaps
import MevScout.Pool.Math.Ties
import MevScout.Pool.ConstantProduct
import MevScout.Pool.Math.TwoHop
import MevScout.Pool.Math.PostState
import MevScout.Pool.Normalize
import MevScout.Pool.Pairs
import MevScout.Paper.Walk
import MevScout.Pool.Math.Balancer
import MevScout.Pool.Undo
import MevScout.Pool.Schedules
import MevScout.Pool.Factory.TickCache
import MevScout.Pool.Factory.Indexes
import MevScout.Pipeline.Aggregate
import MevScout.Pipeline.Fallback
import MevScout.Pipeline.Gas
import MevScout.Pipeline.Finalize
import MevScout.Paper.Seeds
import MevScout.Paper.Recon
import MevScout.Exec.Session
import MevScout.Exec.Calldata
import MevScout.Exec.Custody
import MevScout.Exec.Revm
import MevScout.Mev.JitOrder
import MevScout.Mev.Backrun
import MevScout.Rpc.Multicall
import MevScout.Rpc.Aggregate3
import MevScout.Rpc.Aggregate3Codec
import MevScout.Cache.Blocks
import MevScout.Replay.Skipped
import MevScout.Replay.CachedDb
import MevScout.Explorer.OneRow
import MevScout.Explorer.Residual
import MevScout.Explorer.LegOrder
import MevScout.Explorer.Backfill
import MevScout.Explorer.Checkpoint
import MevScout.Explorer.Fork
import MevScout.Explorer.Decode
import MevScout.Explorer.Unwind
import MevScout.Jobs.Universe
import MevScout.Jobs.Watermark
import MevScout.Pool.FeeGrowth
import MevScout.Pool.TaxSides
import MevScout.Pool.Checked
import MevScout.Cache.Values
import MevScout.Fetch.Resolver
import MevScout.Fetch.Runs
import MevScout.Fetch.Fetcher
import MevScout.Pipeline.Ranges
import MevScout.Jobs.Live
import MevScout.Mev.Inverse
import MevScout.Mev.Prefilter
import MevScout.Explorer.GasShare
import MevScout.Explorer.JitPairs
import MevScout.Mev.Dedup
import MevScout.Mev.MonotoneQuotes
import MevScout.Pipeline.Persistence
import MevScout.Pipeline.Scanner
import MevScout.Paper.Store
import MevScout.Explorer.Views
import MevScout.Explorer.Loans
import MevScout.Explorer.Attach
import MevScout.Explorer.Direction
import MevScout.Explorer.Prices
import MevScout.Explorer.LbBins
import MevScout.Explorer.Schema
import MevScout.Pool.Symbol
import MevScout.Rpc.Health
import MevScout.Rpc.Retry
import MevScout.Rpc.RateLimiter
import MevScout.Pool.Factory.Answers
import MevScout.Pool.Math.Termination
import MevScout.Pool.Math.Isqrt
import MevScout.Pool.Math.Wrapping
import MevScout.Mev.MultiHop
