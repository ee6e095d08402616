import FrameworkBenchmarks.Common.Delimited
import FrameworkBenchmarks.Common.Framing
import FrameworkBenchmarks.Common.GuardedRun
import FrameworkBenchmarks.Common.IntrusiveQueue
import FrameworkBenchmarks.Common.PartialMap
import FrameworkBenchmarks.Common.Scripted
import FrameworkBenchmarks.H2o.PoolRuns
import FrameworkBenchmarks.H2o.WorldResults
import FrameworkBenchmarks.Lwan.JsonRoundTrip
import FrameworkBenchmarks.Lwan.EncodeBuffer
import FrameworkBenchmarks.Lwan.UnknownMembers
import FrameworkBenchmarks.Zebra.TemplateStream
import FrameworkBenchmarks.Zebra.Parsers
import FrameworkBenchmarks.Zebra.TemplateRendering
import FrameworkBenchmarks.Zebra.TrieInsertions
import FrameworkBenchmarks.TitanPl.DriftBatch
import FrameworkBenchmarks.Toolset.CommitCounts
import FrameworkBenchmarks.TitanPl.Reclaimed
import FrameworkBenchmarks.TitanPl.Alone
import FrameworkBenchmarks.TitanPl.UpdatesReport
import FrameworkBenchmarks.TitanPl.EvalStatic
import FrameworkBenchmarks.TitanPl.RuntimeManager
import FrameworkBenchmarks.TitanPl.SampleActions
import FrameworkBenchmarks.TouchSocket.Segmentation
import FrameworkBenchmarks.Toolset.GatherTests
import FrameworkBenchmarks.Toolset.VerifierSoundness
import FrameworkBenchmarks.Toolset.VerifierTotality
import FrameworkBenchmarks.Zebra.StaticRouting
import FrameworkBenchmarks.AspNetCore.ChunkedBody
import FrameworkBenchmarks.TitanPl.RouteDispatch
import FrameworkBenchmarks.TitanPl.RouteInstances
import FrameworkBenchmarks.Toolset.DiffRules
import FrameworkBenchmarks.Toolset.FortuneValidity
import FrameworkBenchmarks.Userver.Segments
import FrameworkBenchmarks.BeetleX.ResponseOrder
import FrameworkBenchmarks.TitanPl.OneServer
import FrameworkBenchmarks.H2o.SortList
import FrameworkBenchmarks.H2o.GenInteger
import FrameworkBenchmarks.H2o.QueryNumber
import FrameworkBenchmarks.H2o.WorldCache
import FrameworkBenchmarks.TitanPl.Expiry
import FrameworkBenchmarks.Common.CodedOrder
import FrameworkBenchmarks.H2o.Fortunes
import FrameworkBenchmarks.Toolset.Uploads
import FrameworkBenchmarks.Toolset.LevelSections
import FrameworkBenchmarks.Toolset.Chunking
import FrameworkBenchmarks.H2o.RandomNumbers
import FrameworkBenchmarks.H2o.UpdateExecution
import FrameworkBenchmarks.H2o.UpdateLayout
import FrameworkBenchmarks.AppMpower.BatchUpdateExecution
import FrameworkBenchmarks.AspNetCore.MultipleUpdates
import FrameworkBenchmarks.AspNetCore.MultipleQueries
import FrameworkBenchmarks.Mormot.Pipelining
import FrameworkBenchmarks.AspNetCore.Pipelined
import FrameworkBenchmarks.TitanPl.Agreement
import FrameworkBenchmarks.H2o.JsonServer
import FrameworkBenchmarks.Mormot.AsyncResponses
import FrameworkBenchmarks.H2o.Shutdown
import FrameworkBenchmarks.Zebra.Requests
import FrameworkBenchmarks.AppMpower.PooledRequests
