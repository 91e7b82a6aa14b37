import ZearchEngine.Lib.LabelledRun
import ZearchEngine.Lib.LengthPrefix
import ZearchEngine.Lib.Wire
import ZearchEngine.Lib.KeyedStore
import ZearchEngine.Lib.CrashPoint
import ZearchEngine.Lib.Interner
import ZearchEngine.Document
import ZearchEngine.Wal.File
import ZearchEngine.Wal.Bincode
import ZearchEngine.Wal.RoundTrip
import ZearchEngine.Wal.TornTail
import ZearchEngine.Wal.Sequence
import ZearchEngine.Wal.Log
import ZearchEngine.Segment
import ZearchEngine.Disk
import ZearchEngine.WriteBuffer
import ZearchEngine.SegmentList
import ZearchEngine.Search
import ZearchEngine.Float
import ZearchEngine.Merge
import ZearchEngine.Shard
import ZearchEngine.Proto
import ZearchEngine.Sync
import ZearchEngine.Change
import ZearchEngine.Content
import ZearchEngine.AppendOnly
import ZearchEngine.Deletion
import ZearchEngine.Compaction
import ZearchEngine.Crash
import ZearchEngine.FlushCrash
import ZearchEngine.CompactionCrash
import ZearchEngine.Threads
import ZearchEngine.Concurrent
import ZearchEngine.Lib.Page
import ZearchEngine.Lib.TopK
import ZearchEngine.Lib.Leapfrog
import ZearchEngine.Posting
import ZearchEngine.Wand
import ZearchEngine.WandTopK
import ZearchEngine.Schema
import ZearchEngine.Inverted
import ZearchEngine.Scoring
import ZearchEngine.Retrieval
import ZearchEngine.Completeness
import ZearchEngine.Fallback
import ZearchEngine.Router
import ZearchEngine.Cluster
import ZearchEngine.Paging
import ZearchEngine.Sorting
import ZearchEngine.FlushFault
import ZearchEngine.CatchUp
import ZearchEngine.ReindexThreads
import ZearchEngine.FilterJson
import ZearchEngine.Column
import ZearchEngine.Filtering
import ZearchEngine.CacheKey
import ZearchEngine.QueryCache
import ZearchEngine.Breaker
import ZearchEngine.MergeThreads
import ZearchEngine.FlushReads
import ZearchEngine.ReadPaths
import ZearchEngine.Reinsertion
import ZearchEngine.Replication
import ZearchEngine.Lib.Delivery
import ZearchEngine.WriteOrder
import ZearchEngine.WasmRanker
import ZearchEngine.Lib.PrefixRange
import ZearchEngine.Suggest
import ZearchEngine.Lib.Varint
import ZearchEngine.PostingCodec
import ZearchEngine.Lib.Tally
import ZearchEngine.Facets
import ZearchEngine.Bulk
import ZearchEngine.Removal
import ZearchEngine.BlockBound
import ZearchEngine.HalfOpen
import ZearchEngine.FallbackReach
import ZearchEngine.BufferCache
import ZearchEngine.Lib.Digits
import ZearchEngine.SegmentName
import ZearchEngine.IdMap
import ZearchEngine.Reopening
import ZearchEngine.FreshNames
import ZearchEngine.Lib.OffsetTable
import ZearchEngine.DocStore
import ZearchEngine.SegmentBytes
import ZearchEngine.Totals
import ZearchEngine.PostingMerge
import ZearchEngine.ColumnOrdinals
import ZearchEngine.EditDistance
import ZearchEngine.Routing
import ZearchEngine.FallbackScores
import ZearchEngine.SuggestTop
import ZearchEngine.ReadTarget
import ZearchEngine.SuggestCounts
import ZearchEngine.Meli
import ZearchEngine.BlockHeaders
import ZearchEngine.Lib.Spans
import ZearchEngine.Tokenizer
import ZearchEngine.Lib.LockOrder
import ZearchEngine.Locks
import ZearchEngine.AttributeBlind
import ZearchEngine.BlindSearch
import ZearchEngine.RemoteCluster
import ZearchEngine.Availability
import ZearchEngine.Lib.Components
import ZearchEngine.ClusterRuns
import ZearchEngine.SuggestRuns
import ZearchEngine.Replicas
import ZearchEngine.ReplicaRuns
import ZearchEngine.SegmentCount
import ZearchEngine.Relevance
import ZearchEngine.Lib.Lines
import ZearchEngine.HttpServer
import ZearchEngine.ExactSearch
