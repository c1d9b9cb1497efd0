import Meshx.NetTrial
import Meshx.AppKeyTrial
import Meshx.KeyRefresh
import Meshx.ProvAuth
import Meshx.Rpl
import Meshx.IvIndex
import Meshx.Segment
import Meshx.Freshness
import Meshx.AtMostOnce
import Meshx.RxPool
import Meshx.ProvExchange
import Meshx.TransSegments
import Meshx.LinkIsolation
import Meshx.TimerAssertions
import Meshx.SessionStates
import Meshx.ProcessOnce
import Meshx.IvUpdates
import Meshx.IvPending
import Meshx.IvDeferred
import Meshx.IvNeighbours
import Meshx.BeaconPhases
import Meshx.RxBounds
import Meshx.RxReassembly
import Meshx.DevKeys
import Meshx.KeyBindings
import Meshx.RplMap
import Meshx.MessageSizes
import Meshx.LinkHandshake
import Meshx.Proxy
import Meshx.ProxyBounds
import Meshx.ProxyRoundTrip
import Meshx.TxStages
import Meshx.TxScheduler
import Meshx.TxAcks
import Meshx.Lib.Line
import Meshx.Lib.Radix
import Meshx.ReceiveSizes
import Meshx.StaleTimeouts
import Meshx.NmcWindow
import Meshx.RplOrder
import Meshx.IvRecovery
import Meshx.BeaconFrame
import Meshx.BeaconTimer
import Meshx.LinkOpenRefusal
import Meshx.SessionActs
import Meshx.TransNumbers
import Meshx.RolesApart
import Meshx.NetIfaces
import Meshx.NetFilters
import Meshx.SeqAuthWindow
import Meshx.SegMessages
import Meshx.SegmentCalls
import Meshx.ProvAuthValue
import Meshx.TxStartFailures
import Meshx.TxTries
import Meshx.TxEnding
import Meshx.RxBookkeeping
import Meshx.GapQueue
import Meshx.CmdParse
import Meshx.CmdCollect
import Meshx.CmdEditor
import Meshx.CmdRecall
import Meshx.RetryEnds
import Meshx.FrameCheck
import Meshx.Decimal
import Meshx.LinkList
import Meshx.ListSequences
import Meshx.AsyncQueue
import Meshx.AsyncLists
import Meshx.AckedSegments
import Meshx.SentSegments
import Meshx.AckedDelivery
import Meshx.Cmac
import Meshx.AuthMismatch
import Meshx.CcmStandard
import Meshx.TransactionLog
import Meshx.Keystream
import Meshx.AdvBearer
import Meshx.SentOn
import Meshx.AccessFlow
import Meshx.NodeReport
import Meshx.Printf
import Meshx.BeaconNet
import Meshx.HexText
import Meshx.AccessOpcode
import Meshx.Lib.Chain
import Meshx.LinkQueue
import Meshx.NetworkNonces
