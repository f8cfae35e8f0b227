import CessNode.TerritoryBalance
import CessNode.LeaseExpiry
import CessNode.OrderPrices
import CessNode.OrderLifeCycle
import CessNode.FileOwners
import CessNode.MinerAccounts
import CessNode.MissedChallenges
import CessNode.PoisInsertion
import CessNode.RestoralOrders
import CessNode.ExitFinal
import CessNode.PoisStatus
import CessNode.PoisTotal
import CessNode.PoisPanics
import CessNode.Clearing
import CessNode.Podr2Verifier
import CessNode.MqDelivery
import CessNode.StorageSync
import CessNode.Poe
import CessNode.Punishment
import CessNode.ReportOrder
import CessNode.TagCredit
import CessNode.FileSpace
import CessNode.BucketNames
import CessNode.ExitRequests
import CessNode.Qualification
import CessNode.Keyfairy
import CessNode.PoisBatch
import CessNode.NftMarket
