import StupidP2P.Foundation.Machine
import StupidP2P.Foundation.NodeList
import StupidP2P.Foundation.CircularList
import StupidP2P.Server.Model
import StupidP2P.Server.Registry
import StupidP2P.Server.Relations
import StupidP2P.Server.Refinement
import StupidP2P.Server.Agreement
import StupidP2P.Server.Subscription
import StupidP2P.Server.SendToList
import StupidP2P.Server.Relay
import StupidP2P.Server.Roster
import StupidP2P.Server.ConnectionList
import StupidP2P.Server.IdleSweep
import StupidP2P.Server.CleanUp
import StupidP2P.Server.SendData
import StupidP2P.Foundation.Framing
import StupidP2P.Foundation.Reads
import StupidP2P.Server.Codec
import StupidP2P.Client.Model
import StupidP2P.Client.RecvFifo
import StupidP2P.Client.SendFifo
import StupidP2P.Client.Parser
import StupidP2P.Client.Accounting
import StupidP2P.Client.RecvLoop
import StupidP2P.Client.RecvOutcomes
import StupidP2P.Client.Limits
import StupidP2P.Server.Frame
import StupidP2P.Client.Stream
import StupidP2P.Foundation.Deque
import StupidP2P.PythonClient.Model
import StupidP2P.Client.SendCommand
import StupidP2P.Client.SendPath
import StupidP2P.Client.Exchange
import StupidP2P.Client.Calls
import StupidP2P.Client.HandleTable
import StupidP2P.Client.RecvData
import StupidP2P.Client.Reconnect
import StupidP2P.PythonClient.RecvThread
import StupidP2P.Foundation.Mutex
import StupidP2P.Client.Chunking
import StupidP2P.PythonClient.Alignment
import StupidP2P.Client.SendLock
import StupidP2P.Interop.Acceptance
import StupidP2P.Client.Api
import StupidP2P.Interop.DeviceIds
import StupidP2P.Foundation.Writes
import StupidP2P.Interop.ShortWrites
import StupidP2P.Client.RecvDataList
import StupidP2P.Client.Admission
import StupidP2P.Client.HeartBeat
import StupidP2P.PythonClient.HeartBeat
import StupidP2P.Foundation.Slice
import StupidP2P.Server.Buffer
import StupidP2P.Server.BufferedCodec
import StupidP2P.Interop.Network
import StupidP2P.Interop.EndToEnd
import StupidP2P.Foundation.Since
import StupidP2P.Server.Delivery
import StupidP2P.Server.Isolation
import StupidP2P.Server.Interleaving
import StupidP2P.Interop.Guarantee
import StupidP2P.Interop.Streams
import StupidP2P.Client.RecvAccount
import StupidP2P.Client.RecvOwnership
import StupidP2P.Interop.Uplink
