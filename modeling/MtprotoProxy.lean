import MtprotoProxy.CInt
import MtprotoProxy.CString
import MtprotoProxy.CArray
import MtprotoProxy.CScan
import MtprotoProxy.BoundedWrites
import MtprotoProxy.Runs
import MtprotoProxy.References
import MtprotoProxy.ExactSpecs
import MtprotoProxy.TokenBucket
import MtprotoProxy.SecretText
import MtprotoProxy.SecretStore
import MtprotoProxy.SecretPersist
import MtprotoProxy.SecretAdmin
import MtprotoProxy.SecretSpelling
import MtprotoProxy.AdminJson
import MtprotoProxy.AdminHttp
import MtprotoProxy.JsonFields
import MtprotoProxy.JsonDecode
import MtprotoProxy.AdminAtomicity
import MtprotoProxy.SecretLoad
import MtprotoProxy.SecretTraffic
import MtprotoProxy.StoreInvariant
import MtprotoProxy.StoreRun
import MtprotoProxy.AdminOutput
import MtprotoProxy.StateRoundTrip
import MtprotoProxy.TrafficTotals
import MtprotoProxy.RateLimiter
import MtprotoProxy.BasicAuth
import MtprotoProxy.BanTracker
import MtprotoProxy.ReplayCache
import MtprotoProxy.ClientHello
import MtprotoProxy.Connection
import MtprotoProxy.CompactParse
import MtprotoProxy.ConnectionRun
import MtprotoProxy.TrialDecryption
import MtprotoProxy.HandshakeMoves
import MtprotoProxy.OpenProxy
import MtprotoProxy.PacketLoop
import MtprotoProxy.ServerReader
import MtprotoProxy.BlockMachine
import MtprotoProxy.HttpHeader
import MtprotoProxy.HttpRequests
import MtprotoProxy.HttpServer
import MtprotoProxy.CoverFallback
import MtprotoProxy.LinkedLists
import MtprotoProxy.ExtTables
import MtprotoProxy.ExtLists
import MtprotoProxy.ExtRegistry
import MtprotoProxy.ExtSpecs
import MtprotoProxy.ExtEngine
import MtprotoProxy.ExtEngineSpecs
import MtprotoProxy.ExtCalls
import MtprotoProxy.ExtOutcomes
import MtprotoProxy.LoadTermination
import MtprotoProxy.OutConnIds
import MtprotoProxy.MiddleEndIsolation
import MtprotoProxy.PacketForward
import MtprotoProxy.ClientBinding
import MtprotoProxy.PacketFilter
import MtprotoProxy.ConnectionRefs
import MtprotoProxy.TrafficAttribution
import MtprotoProxy.ConnectionCount
import MtprotoProxy.TlsRecords
import MtprotoProxy.ClientFraming
import MtprotoProxy.RpcDh
import MtprotoProxy.RpcNonce
import MtprotoProxy.RpcHandshake
import MtprotoProxy.RpcServer
import MtprotoProxy.DomainProbe
import MtprotoProxy.BufferReads
import MtprotoProxy.AesKeys
import MtprotoProxy.ServerHelloGrammar
import MtprotoProxy.SniExtension
import MtprotoProxy.ProbeRequest
import MtprotoProxy.SpecialConnections
import MtprotoProxy.ConfigLexer
import MtprotoProxy.ConnTargets
import MtprotoProxy.ConfigParse
import MtprotoProxy.ConfigNumbers
import MtprotoProxy.ConfigReload
import MtprotoProxy.MsgHeap
import MtprotoProxy.MsgHeapInv
import MtprotoProxy.MsgFrame
import MtprotoProxy.MsgSpan
import MtprotoProxy.MsgFork
import MtprotoProxy.MsgAppend
import MtprotoProxy.MsgProcess
import MtprotoProxy.MsgRun
import MtprotoProxy.MsgSlicing
import MtprotoProxy.MsgHalves
import MtprotoProxy.CrcBits
import MtprotoProxy.Crc32
import MtprotoProxy.MsgReads
import MtprotoProxy.MsgBlocks
import MtprotoProxy.MsgGrow
import MtprotoProxy.MsgTlString
import MtprotoProxy.BlockCipher
import MtprotoProxy.MsgVisit
import MtprotoProxy.MsgCrypt
import MtprotoProxy.Lockstep
import MtprotoProxy.TlInput
import MtprotoProxy.TlBackends
import MtprotoProxy.TlReading
import MtprotoProxy.Returns
import MtprotoProxy.TlBytes
import MtprotoProxy.TlDiscipline
import MtprotoProxy.TlStrings
import MtprotoProxy.TlHeaders
import MtprotoProxy.BinaryHeap
import MtprotoProxy.TimerHeap
import MtprotoProxy.EventHeap
import MtprotoProxy.CrcRing
import MtprotoProxy.SseWords
import MtprotoProxy.CrcTables
import MtprotoProxy.CrcClmul
import MtprotoProxy.Crc32c
import MtprotoProxy.Gf32
import MtprotoProxy.CrcCombine
import MtprotoProxy.CrcRepair
import MtprotoProxy.StoreParts
import MtprotoProxy.Treap
import MtprotoProxy.VvTree
import MtprotoProxy.VvTreeInv
import MtprotoProxy.VvTreeOps
import MtprotoProxy.VvTreeRun
import MtprotoProxy.CountTree
import MtprotoProxy.MsgBufferChunk
import MtprotoProxy.MsgBufferRun
import MtprotoProxy.OpenAddressing
import MtprotoProxy.HostsTable
import MtprotoProxy.HostsHash
import MtprotoProxy.HostsLoad
import MtprotoProxy.StoreChains
import MtprotoProxy.JobMessages
import MtprotoProxy.JobMessageRun
import MtprotoProxy.ClientRandoms
import MtprotoProxy.CStdio
import MtprotoProxy.HttpDate
import MtprotoProxy.CMemory
import MtprotoProxy.Ipv6Text
import MtprotoProxy.Ipv6Show
import MtprotoProxy.MsgForkChain
import MtprotoProxy.MpQueueBlock
import MtprotoProxy.MpQueue
import MtprotoProxy.MpQueueInv
import MtprotoProxy.MpQueueRounds
import MtprotoProxy.MpQueueCalls
import MtprotoProxy.MpQueueFifo
import MtprotoProxy.Activations
import MtprotoProxy.MpBlockCalls
import MtprotoProxy.MpBlockInv
import MtprotoProxy.MpBlockRuns
import MtprotoProxy.RpcStream
