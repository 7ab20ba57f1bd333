import NolusMoneyMarket.Base.Fallible
import NolusMoneyMarket.Base.KeyedStore
import NolusMoneyMarket.Base.IndexedMap
import NolusMoneyMarket.Base.Runs
import NolusMoneyMarket.Base.SharePool
import NolusMoneyMarket.Base.Waterfall
import NolusMoneyMarket.Lease.Loan
import NolusMoneyMarket.Lease.Split
import NolusMoneyMarket.Lease.Position
import NolusMoneyMarket.Finance.Fraction
import NolusMoneyMarket.Finance.Interest
import NolusMoneyMarket.Finance.Price
import NolusMoneyMarket.Lpp.Loan
import NolusMoneyMarket.Lpp.Total
import NolusMoneyMarket.Lpp.Config
import NolusMoneyMarket.Lpp.Deposit
import NolusMoneyMarket.Lpp.Pool
import NolusMoneyMarket.Lpp.Effects
import NolusMoneyMarket.Lpp.Ledger
import NolusMoneyMarket.Lpp.Drift
import NolusMoneyMarket.Lpp.Worth
import NolusMoneyMarket.Finance.Period
import NolusMoneyMarket.Finance.Range
import NolusMoneyMarket.Finance.Liability
import NolusMoneyMarket.Lease.Steady
import NolusMoneyMarket.MarketPrice.Alarms
import NolusMoneyMarket.MarketPrice.Delivery
import NolusMoneyMarket.Oracle.Dispatch
import NolusMoneyMarket.Base.Rounding
import NolusMoneyMarket.Finance.Accuracy
import NolusMoneyMarket.MarketPrice.Feed
import NolusMoneyMarket.MarketPrice.Average
import NolusMoneyMarket.MarketPrice.FeedPrice
import NolusMoneyMarket.Base.Requests
import NolusMoneyMarket.Dex.OutLocal
import NolusMoneyMarket.Dex.OutRemote
import NolusMoneyMarket.Dex.Swap
import NolusMoneyMarket.Lease.Fresh
import NolusMoneyMarket.Lease.Lease
import NolusMoneyMarket.Lease.Payment
import NolusMoneyMarket.Lease.Contract
import NolusMoneyMarket.Lease.Watch
import NolusMoneyMarket.Base.Redelivery
import NolusMoneyMarket.Dex.RespDelivery
import NolusMoneyMarket.Dex.SwapDelivery
import NolusMoneyMarket.Lpp.Residue
import NolusMoneyMarket.Base.RewardIndex
import NolusMoneyMarket.Lpp.Rewards
import NolusMoneyMarket.Lpp.Solvency
import NolusMoneyMarket.Oracle.AlarmsOrder
import NolusMoneyMarket.Base.Preorder
import NolusMoneyMarket.Tree.Tree
import NolusMoneyMarket.Oracle.Pairs
import NolusMoneyMarket.Oracle.BasePrices
import NolusMoneyMarket.Oracle.PricesWalk
import NolusMoneyMarket.MarketPrice.Feeds
import NolusMoneyMarket.Oracle.PricePaths
import NolusMoneyMarket.Lpp.Repayment
import NolusMoneyMarket.Finance.Liquidation
import NolusMoneyMarket.Lease.Asks
import NolusMoneyMarket.Oracle.SwapPath
import NolusMoneyMarket.Base.KeyedRange
import NolusMoneyMarket.Leaser.Leases
import NolusMoneyMarket.Leaser.Migrate
import NolusMoneyMarket.Leaser.Close
import NolusMoneyMarket.Leaser.Pages
import NolusMoneyMarket.Base.IndexOrder
import NolusMoneyMarket.TimeAlarms.Alarms
import NolusMoneyMarket.TimeAlarms.Delivery
import NolusMoneyMarket.TimeAlarms.Rearmed
import NolusMoneyMarket.Dex.Coins
import NolusMoneyMarket.Dex.Transfers
import NolusMoneyMarket.Base.Handover
import NolusMoneyMarket.Profit.Contract
import NolusMoneyMarket.Profit.Progress
import NolusMoneyMarket.Dex.Supports
import NolusMoneyMarket.Profit.Supports
import NolusMoneyMarket.Lease.Overdue
import NolusMoneyMarket.Lease.Settle
import NolusMoneyMarket.Lease.Checkable
import NolusMoneyMarket.Lease.PolicyChange
import NolusMoneyMarket.Lpp.BorrowRate
import NolusMoneyMarket.Lpp.Capacity
import NolusMoneyMarket.Base.Windows
import NolusMoneyMarket.MarketPrice.Retention
import NolusMoneyMarket.Tree.Subtree
import NolusMoneyMarket.Tree.FromTree
import NolusMoneyMarket.Tree.RoundTrip
import NolusMoneyMarket.Lease.Opening
import NolusMoneyMarket.Finance.Sums
import NolusMoneyMarket.Lease.NoClose
import NolusMoneyMarket.Base.Ends
import NolusMoneyMarket.Tree.Parents
import NolusMoneyMarket.Base.Thresholds
import NolusMoneyMarket.Treasury.RewardScale
import NolusMoneyMarket.Treasury.Rewards
import NolusMoneyMarket.Treasury.Contract
import NolusMoneyMarket.Base.Tiles
import NolusMoneyMarket.Treasury.Payouts
import NolusMoneyMarket.Versioning.Version
import NolusMoneyMarket.Versioning.Release
import NolusMoneyMarket.Versioning.Updates
import NolusMoneyMarket.Admin.Contracts
import NolusMoneyMarket.Admin.Contract
import NolusMoneyMarket.Admin.Registry
import NolusMoneyMarket.Admin.Closing
import NolusMoneyMarket.Lease.Books
import NolusMoneyMarket.Leaser.LeaseCode
import NolusMoneyMarket.Oracle.Feeding
import NolusMoneyMarket.Leaser.Quote
import NolusMoneyMarket.Lease.Registration
import NolusMoneyMarket.Base.Frontier
import NolusMoneyMarket.Topology.HostToDex
import NolusMoneyMarket.Topology.Currencies
