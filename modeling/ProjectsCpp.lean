import ProjectsCpp.Lib.Run
import ProjectsCpp.Lib.Text
import ProjectsCpp.Lib.Maps
import ProjectsCpp.Lib.Handoff
import ProjectsCpp.Lib.Quorum
import ProjectsCpp.Lib.Replication
import ProjectsCpp.Lib.ReplicaSteps
import ProjectsCpp.KvRaft.Wire
import ProjectsCpp.KvRaft.WireAgreement
import ProjectsCpp.KvRaft.Node
import ProjectsCpp.KvRaft.Process
import ProjectsCpp.KvRaft.Ballot
import ProjectsCpp.KvRaft.LogFrame
import ProjectsCpp.KvRaft.Life
import ProjectsCpp.KvRaft.Votes
import ProjectsCpp.KvRaft.Frame
import ProjectsCpp.KvRaft.Recovery
import ProjectsCpp.KvRaft.Server
import ProjectsCpp.KvRaft.SnapShot
import ProjectsCpp.KvRaft.Delivery
import ProjectsCpp.KvRaft.Indices
import ProjectsCpp.KvRaft.DeliveryOrder
import ProjectsCpp.KvRaft.Cluster
import ProjectsCpp.KvRaft.Canvass
import ProjectsCpp.KvRaft.Election
import ProjectsCpp.KvRaft.Replica
import ProjectsCpp.KvRaft.Replicated
import ProjectsCpp.KvRaft.Refinement
import ProjectsCpp.KvRaft.LogSafety
import ProjectsCpp.KvRaft.Compaction
import ProjectsCpp.KvRaft.CommitRule
import ProjectsCpp.KvRaft.BackOff
import ProjectsCpp.KvRaft.Rounds
import ProjectsCpp.KvRaft.EntryReads
import ProjectsCpp.KvRaft.TextFormats
import ProjectsCpp.ShardKv.Wire
import ProjectsCpp.ShardKv.Server
import ProjectsCpp.ShardKv.Replicas
import ProjectsCpp.ShardKv.Deployment
import ProjectsCpp.ShardKv.GroupLog
import ProjectsCpp.ShardKv.Replay
import ProjectsCpp.ShardKv.Ownership
import ProjectsCpp.ShardKv.Numbers
import ProjectsCpp.ShardKv.ExactlyOnce
import ProjectsCpp.ShardKv.Pairs
import ProjectsCpp.ShardKv.HandOver
import ProjectsCpp.ShardKv.SnapShot
import ProjectsCpp.Lib.Balance
import ProjectsCpp.ShardMaster.Master
import ProjectsCpp.ShardMaster.WorkLoad
import ProjectsCpp.ShardMaster.Configs
import ProjectsCpp.ShardMaster.Evenly
import ProjectsCpp.ShardMaster.FewestMoves
import ProjectsCpp.ShardMaster.Leave
import ProjectsCpp.PlainRaft.Node
import ProjectsCpp.PlainRaft.Agreement
import ProjectsCpp.PlainRaft.Bookkeeping
import ProjectsCpp.PlainRaft.Voting
import ProjectsCpp.Lib.TaskBoard
import ProjectsCpp.MapReduce.Attempts
import ProjectsCpp.MapReduce.Master
import ProjectsCpp.MapReduce.WordCount
import ProjectsCpp.Lib.Ranges
import ProjectsCpp.WebServer.MemoryPool
import ProjectsCpp.Lib.LinkedList
import ProjectsCpp.WebServer.LFUCache
import ProjectsCpp.WebServer.LFUShape
import ProjectsCpp.WebServer.LFUIndex
import ProjectsCpp.WebServer.LFUReference
import ProjectsCpp.WebServer.LFUClients
import ProjectsCpp.ConcurrentMemoryPool.PageCache
import ProjectsCpp.ConcurrentMemoryPool.PageSpans
import ProjectsCpp.ConcurrentMemoryPool.PageOwnership
import ProjectsCpp.ConcurrentMemoryPool.Pool
import ProjectsCpp.ConcurrentMemoryPool.Objects
import ProjectsCpp.ConcurrentMemoryPool.Blocks
import ProjectsCpp.ConcurrentMemoryPool.Slicing
import ProjectsCpp.ConcurrentMemoryPool.SpanTaking
import ProjectsCpp.ConcurrentMemoryPool.UseCounts
import ProjectsCpp.ConcurrentMemoryPool.SpanReturn
import ProjectsCpp.Muduo.EventLoop
import ProjectsCpp.Muduo.OutputStream
import ProjectsCpp.Muduo.CallerStrings
import ProjectsCpp.Muduo.HalfClose
import ProjectsCpp.Muduo.Life
import ProjectsCpp.Muduo.LifeCycle
import ProjectsCpp.Muduo.Quiet
import ProjectsCpp.WebServer.LogShutdown
import ProjectsCpp.WebServer.FtpConfined
import ProjectsCpp.WebServer.HttpParsing
import ProjectsCpp.WebServer.HttpSession
import ProjectsCpp.WebServer.HttpSafety
import ProjectsCpp.WebServer.ContentLength
import ProjectsCpp.Muduo.LocalTime
import ProjectsCpp.ShardKv.MovedOut
import ProjectsCpp.ShardKv.TextFormats
import ProjectsCpp.Lib.Turns
import ProjectsCpp.MuduoNet.HttpContext
import ProjectsCpp.MuduoNet.HttpServer
import ProjectsCpp.MuduoNet.ProtobufCodecLite
import ProjectsCpp.Lib.Slots
import ProjectsCpp.MuduoNet.Channel
import ProjectsCpp.MuduoNet.PollPoller
import ProjectsCpp.MuduoNet.EPollPoller
import ProjectsCpp.MuduoNet.Pollers
import ProjectsCpp.MuduoNet.TimerQueue
import ProjectsCpp.MuduoNet.TimerCallbacks
import ProjectsCpp.MuduoNet.TcpConnection
import ProjectsCpp.MuduoNet.TimerRuns
import ProjectsCpp.Multiplexer.MultiplexServer
import ProjectsCpp.Multiplexer.Packets
import ProjectsCpp.Multiplexer.DemuxServer
import ProjectsCpp.Multiplexer.Relay
import ProjectsCpp.WebServer.TimerNode
import ProjectsCpp.WebServer.TimerManager
import ProjectsCpp.WebServer.DeleteDirectory
import ProjectsCpp.WebServer.FtpDownload
import ProjectsCpp.WebServer.UseMemory
import ProjectsCpp.Muduo.EPollPoller
import ProjectsCpp.Muduo.ByteQueue
import ProjectsCpp.MuduoNet.TimerCancel
import ProjectsCpp.MuduoNet.RequestStream
import ProjectsCpp.MuduoNet.Connector
import ProjectsCpp.ProtoRpc.Kth
import ProjectsCpp.Muduo.Calendar
import ProjectsCpp.Lib.RoundRobin
import ProjectsCpp.KvRaft.PeerTurns
import ProjectsCpp.PlainRaft.PeerTurns
import ProjectsCpp.Lib.TwosComplement
import ProjectsCpp.Lib.CircularBuffer
import ProjectsCpp.Sudoku.Stat
import ProjectsCpp.Lib.Cumulative
import ProjectsCpp.ProtoRpc.Partition
import ProjectsCpp.Lib.Hands
import ProjectsCpp.Muduo.ThreadPool
import ProjectsCpp.Lib.Incremental
import ProjectsCpp.Memcached.Item
import ProjectsCpp.Memcached.Session
import ProjectsCpp.Lib.Rings
import ProjectsCpp.Sudoku.Solver
import ProjectsCpp.Sudoku.Links
import ProjectsCpp.Lib.ExactCover
import ProjectsCpp.Sudoku.Search
import ProjectsCpp.Sudoku.Build
import ProjectsCpp.Sudoku.Constructor
import ProjectsCpp.Sudoku.Layout
import ProjectsCpp.Sudoku.Puzzle
import ProjectsCpp.Lib.Masks
import ProjectsCpp.Lib.Words
import ProjectsCpp.ProtoRpc.NQueens
import ProjectsCpp.ProtoRpc.NQueensClient
import ProjectsCpp.Lib.Chains
import ProjectsCpp.Skiplist.SkipList
import ProjectsCpp.Skiplist.Levels
import ProjectsCpp.Skiplist.Edits
import ProjectsCpp.Skiplist.Calls
import ProjectsCpp.Lib.SortedEntries
import ProjectsCpp.Skiplist.Files
import ProjectsCpp.ButtonRpc.Serializer
import ProjectsCpp.ButtonRpc.Rpc
import ProjectsCpp.ButtonRpc.Clients
import ProjectsCpp.Lib.Pending
import ProjectsCpp.RpcBalancer.Balancer
import ProjectsCpp.RpcBalancer.RawMessage
import ProjectsCpp.MuduoNet.RpcChannel
import ProjectsCpp.Hub.Codec
import ProjectsCpp.Hub.Server
