import WsSignalServer.General.Transition
import WsSignalServer.General.While
import WsSignalServer.General.Index
import WsSignalServer.General.Directory
import WsSignalServer.General.Fifo
import WsSignalServer.General.Monitor
import WsSignalServer.Json.Reader
import WsSignalServer.SignalServer
import WsSignalServer.Requests
import WsSignalServer.Registry
import WsSignalServer.Receive
import WsSignalServer.Pairs
import WsSignalServer.Relay
import WsSignalServer.WebsocketServer
import WsSignalServer.Dispatch
import WsSignalServer.Lifecycle
import WsSignalServer.ConditionMutex
import WsSignalServer.Ping
import WsSignalServer.NextId
import WsSignalServer.SignIns
import WsSignalServer.Leaving
import WsSignalServer.Offers
import WsSignalServer.Wakeup
import WsSignalServer.General.BasicString
import WsSignalServer.IceServer
import WsSignalServer.Names
import WsSignalServer.General.Rounding
import WsSignalServer.Json.Decimal
import WsSignalServer.Json.Numeral
import WsSignalServer.Json.Grammar
import WsSignalServer.Json.Quote
import WsSignalServer.Json.Fits
import WsSignalServer.Json.Writer
import WsSignalServer.Json.RoundTrip
import WsSignalServer.Wire
import WsSignalServer.Json.Encoding
import WsSignalServer.Main
import WsSignalServer.General.LockOrder
import WsSignalServer.Locks
import WsSignalServer.MessageQueue
import WsSignalServer.PeerTable
