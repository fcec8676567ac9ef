import StormNet.Foundation.Assoc
import StormNet.Foundation.Channel
import StormNet.Foundation.Framing
import StormNet.Foundation.Grouping
import StormNet.Foundation.Ledger
import StormNet.Foundation.Linear
import StormNet.Foundation.Lock
import StormNet.Foundation.Machine
import StormNet.Foundation.Munch
import StormNet.Foundation.Nesting
import StormNet.Foundation.Numeral
import StormNet.Foundation.Pieces
import StormNet.Foundation.Scan
import StormNet.Foundation.Sweep
import StormNet.Foundation.Table
import StormNet.Foundation.Transition
import StormNet.Foundation.Trim
import StormNet.Foundation.Wire
import StormNet.Foundation.Word
import StormNet.Framework.Agreement
import StormNet.Framework.Bound
import StormNet.Framework.CloseCall
import StormNet.Framework.Completion
import StormNet.Framework.ConnectionLife
import StormNet.Framework.ConnectionLists
import StormNet.Framework.Delivery
import StormNet.Framework.EndPointLists
import StormNet.Framework.EndPointStream
import StormNet.Framework.EndPointUpdate
import StormNet.Framework.Isolation
import StormNet.Framework.NetLocks
import StormNet.Framework.ProxyCache
import StormNet.Framework.ProxyEndPoint
import StormNet.Framework.ProxyString
import StormNet.Framework.ProxyText
import StormNet.Framework.Request
import StormNet.Framework.RequestId
import StormNet.Framework.RoutingHash
import StormNet.Framework.RpcExecution
import StormNet.Framework.RpcProto
import StormNet.Framework.RpcService
import StormNet.Framework.RpcSystem
import StormNet.Framework.ServiceProxy
import StormNet.Framework.ServiceThread
import StormNet.Framework.Step
import StormNet.Framework.StormListener
import StormNet.Framework.StormServer
import StormNet.Framework.SyncCall
import StormNet.Net.AcceptLoop
import StormNet.Net.BufferGrowth
import StormNet.Net.ByteQueue
import StormNet.Net.ConnTimeout
import StormNet.Net.EmptySend
import StormNet.Net.HandleRead
import StormNet.Net.IoBuffer
import StormNet.Net.LineFraming
import StormNet.Net.LoopChange
import StormNet.Net.LoopInvariant
import StormNet.Net.LoopStep
import StormNet.Net.Notifier
import StormNet.Net.NotifierSlot
import StormNet.Net.Ownership
import StormNet.Net.PooledLoop
import StormNet.Net.Routing
import StormNet.Net.SendPath
import StormNet.Net.SlotNumbers
import StormNet.Net.SlotSearch
import StormNet.Net.SlotType
import StormNet.Net.SocketDefine
import StormNet.Net.SocketHandler
import StormNet.Net.SocketLoop
import StormNet.Net.SocketPoller
import StormNet.Registry.Availability
import StormNet.Registry.Detector
import StormNet.Registry.Flush
import StormNet.Registry.Load
import StormNet.Registry.Registration
import StormNet.Registry.Reload
import StormNet.Registry.ServiceManager
import StormNet.Registry.Watch
import StormNet.RpcGenerator.Dispatch
import StormNet.RpcGenerator.Lexeme
import StormNet.RpcGenerator.Lexical
import StormNet.RpcGenerator.Parser
import StormNet.RpcGenerator.Scanner
import StormNet.RpcGenerator.Syntax
import StormNet.Util.Config
import StormNet.Util.ConfigJoin
import StormNet.Util.ConfigLine
import StormNet.Util.ConfigLookup
import StormNet.Util.ConfigNesting
import StormNet.Util.ConfigRoundTrip
import StormNet.Util.LockQueue
import StormNet.Util.Log
import StormNet.Util.LogRotation
import StormNet.Util.ObjectPool
import StormNet.Util.Protocol
import StormNet.Util.ProtocolLine
import StormNet.Util.RollLog
import StormNet.Util.SplitString
import StormNet.Util.TimeList
import StormNet.Util.TimeQueue
import StormNet.Util.Timer
import StormNet.Util.TimerCallback
import StormNet.Util.TimerSeconds
import StormNet.Util.URLParam
import StormNet.Util.UtilEncode
import StormNet.Util.UtilFile
import StormNet.Util.UtilString
import StormNet.Util.UtilText
import StormNet.Util.UtilTime
