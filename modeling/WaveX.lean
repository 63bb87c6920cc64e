import WaveX.VarInt
import WaveX.QuicFrames
import WaveX.QuicPacket
import WaveX.QuicCrypto
import WaveX.CongestionControl
import WaveX.QuicReceiveState
import WaveX.QuicState
import WaveX.QuicSend
import WaveX.QuicReceive
import WaveX.QuicRuns
import WaveX.History
import WaveX.QuicLedger
import WaveX.QuicSendSimulation
import WaveX.QuicReceiveSimulation
import WaveX.QuicAmplification
import WaveX.QuicInFlight
import WaveX.QuicNonce
import WaveX.QuicRetransmission
import WaveX.QuicStreamDispatch
import WaveX.QuicStreamSend
import WaveX.QuicFlowControl
import WaveX.QuicClose
import WaveX.QuicFrameAdmission
import WaveX.QuicKeyUpdate
import WaveX.QuicFrameCodec
import WaveX.IntervalList
import WaveX.QuicAckRoundTrip
import WaveX.QuicCoalescing
import WaveX.QuicPacketRoundTrip
import WaveX.QuicOptimisticAck
import WaveX.HttpText
import WaveX.Hpack
import WaveX.HeaderStrings
import WaveX.HpackRoundTrip
import WaveX.Qpack
import WaveX.QpackTable
import WaveX.QpackLines
import WaveX.QpackRoundTrip
import WaveX.QpackEncoderStream
import WaveX.QpackInsertCount
import WaveX.HeaderProgress
import WaveX.Http2Frames
import WaveX.Http2Session
import WaveX.Http2Effects
import WaveX.Http2Tasks
import WaveX.Http2HeaderState
import WaveX.Http2HeaderSync
import WaveX.Chunks
import WaveX.Http2FlowControl
import WaveX.Http2FrameCodec
import WaveX.Http2Parser
import WaveX.Http2ResponseArrival
import WaveX.Http2StreamRaces
import WaveX.Http2Steady
import WaveX.Http2TunnelEnd
import WaveX.Http2WindowBound
import WaveX.Http2ReceiveWindow
import WaveX.Http2TunnelWake
import WaveX.Http1Codec
import WaveX.Http1ChunkProgress
import WaveX.Http1RoundTrip
import WaveX.Http1RequestArrival
import WaveX.Http1Response
import WaveX.Http1Streaming
import WaveX.Http1Client
import WaveX.Http1Framing
import WaveX.Http2Client
import WaveX.RequestTarget
import WaveX.UrlRoundTrip
import WaveX.Http3Parser
import WaveX.Http3RequestArrival
import WaveX.WebSocketCodec
import WaveX.WebSocketOutbox
import WaveX.WebSocketUtf8
import WaveX.WebSocketKeys
import WaveX.WebSocketRead
import WaveX.WebSocketMessages
import WaveX.MiddlewareChain
import WaveX.WebTransportRegistry
import WaveX.Multipart
import WaveX.MultipartRoundTrip
import WaveX.MultipartRounds
import WaveX.MultipartLines
import WaveX.MultipartParts
import WaveX.MultipartTruncation
import WaveX.MultipartAsync
import WaveX.MultipartDisposition
import WaveX.Machine
import WaveX.Labelled
import WaveX.RingQueue
import WaveX.BlockingPool
import WaveX.BlockingPoolRuns
import WaveX.StreamBuffers
import WaveX.FlatMap
import WaveX.FlatStorage
import WaveX.RouterPaths
import WaveX.RouterTree
import WaveX.RouterTable
import WaveX.RouterSearch
import WaveX.RouterCompleteness
import WaveX.RouterParams
import WaveX.RouterLeftovers
import WaveX.RouterChains
import WaveX.RouterViews
import WaveX.RouterSegments
import WaveX.Reassembly
import WaveX.QuicStreamReassembly
import WaveX.QuicFinalSize
import WaveX.CryptoReassembly
import WaveX.QuicReplay
import WaveX.QuicDatagramSize
import WaveX.QuicRtt
import WaveX.QuicCongestion
import WaveX.Http2RequestWire
import WaveX.Http2Connect
import WaveX.Http3Validation
import WaveX.RequestVersions
import WaveX.PrefixCode
import WaveX.HpackHuffman
import WaveX.EvictingQueue
import WaveX.HpackTableSize
import WaveX.QpackTableHistory
import WaveX.HpackIntegers
import WaveX.Http3Tunnel
import WaveX.Http3RequestRules
import WaveX.RequestParams
import WaveX.ResponseHeaders
import WaveX.ThreadPool
import WaveX.ThreadPoolLease
import WaveX.Http2ResponseFraming
import WaveX.WebSocketClose
import WaveX.WebSocketBacklog
import WaveX.WebTransportCapsules
import WaveX.ThreadPoolTable
import WaveX.WorkStealingQueue
import WaveX.WorkStealingRuns
import WaveX.MiddlewareNesting
import WaveX.ServerLoop
import WaveX.ServerLoopRuns
import WaveX.QuicServer
import WaveX.QuicServerRuns
import WaveX.QuicStreamDelivery
import WaveX.ServerLifecycle
import WaveX.ServerLifecycleRuns
import WaveX.QuicStreamFrames
import WaveX.PoolTasks
