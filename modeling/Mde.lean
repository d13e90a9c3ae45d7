import Mde.BookOverwrite
import Mde.LedgerAgreement
import Mde.BookIndependence
import Mde.Decode
import Mde.Progress
import Mde.TradeErasure
import Mde.LineAccounts
import Mde.Teardown
import Mde.Refusals
import Mde.VolumeCorrection
import Mde.ZeroVolume
import Mde.MutationPaths
import Mde.TimeOfDay
import Mde.LedgerIndices
import Mde.LedgerAccount
import Mde.PriceKeys
import Mde.QueueMonitor
import Mde.OrderStreams
import Mde.LedgerStreams
import Mde.BookStatus
import Mde.PublishedFeed
import Mde.Polling
import Mde.ValidationReports
import Mde.LockedEngine
