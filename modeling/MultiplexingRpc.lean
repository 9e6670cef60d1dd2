import MultiplexingRpc.Common
import MultiplexingRpc.Int
import MultiplexingRpc.Blob
import MultiplexingRpc.Lib.KeyedList
import MultiplexingRpc.Lib.Pool
import MultiplexingRpc.ConsistentHash
import MultiplexingRpc.DistributedClient
import MultiplexingRpc.Lib.Run
import MultiplexingRpc.Packet
import MultiplexingRpc.PacketStream
import MultiplexingRpc.StreamProcessor
import MultiplexingRpc.PacketAccounting
import MultiplexingRpc.Phases
import MultiplexingRpc.ClientStreamProcessor
import MultiplexingRpc.ServerStreamProcessor
import MultiplexingRpc.IdleStreams
import MultiplexingRpc.PacketBudget
import MultiplexingRpc.Lane
import MultiplexingRpc.IntSerialize
import MultiplexingRpc.Wire
import MultiplexingRpc.Arrays
import MultiplexingRpc.BlobSerialize
import MultiplexingRpc.Interface
import MultiplexingRpc.ParamCodec
import MultiplexingRpc.GeneratedCode
import MultiplexingRpc.GeneratedCleanup
import MultiplexingRpc.GeneratedCall
import MultiplexingRpc.Parser
import MultiplexingRpc.Grammar
import MultiplexingRpc.Dispatch
import MultiplexingRpc.ClientAccounting
import MultiplexingRpc.SharedClients
import MultiplexingRpc.AssertingServer
import MultiplexingRpc.ServerAssertions
import MultiplexingRpc.Ends
import MultiplexingRpc.Connection
import MultiplexingRpc.CrossTalk
import MultiplexingRpc.Ring
import MultiplexingRpc.StreamReads
import MultiplexingRpc.StreamWrites
import MultiplexingRpc.WriterFiber
import MultiplexingRpc.Bitmap
import MultiplexingRpc.RequestIds
import MultiplexingRpc.Server
import MultiplexingRpc.Client
import MultiplexingRpc.ProtocolErrors
import MultiplexingRpc.Buckets
import MultiplexingRpc.ArrayDecoding
import MultiplexingRpc.BlobLifeCycle
import MultiplexingRpc.AssertingClient
import MultiplexingRpc.ByteConnection
import MultiplexingRpc.ClientAssertions
import MultiplexingRpc.ContentCodec
import MultiplexingRpc.FailingStreams
import MultiplexingRpc.EndToEnd
import MultiplexingRpc.ServerPool
import MultiplexingRpc.MrpcClient
import MultiplexingRpc.MrpcDistributedClient
import MultiplexingRpc.DistributedLifeCycle
