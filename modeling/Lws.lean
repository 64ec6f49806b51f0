import Lws.Ring
import Lws.Probe
import Lws.Pratt
import Lws.TableSizes
import Lws.Table
import Lws.TableLayout
import Lws.TableInsert
import Lws.TableRep
import Lws.TableGrow
import Lws.TableCalls
import Lws.TableStep
import Lws.OrdMap
import Lws.TableOps
import Lws.TableMap
import Lws.TableReach
import Lws.Loop
import Lws.TableProbing
import Lws.TableBrent
import Lws.Lru
import Lws.TableCache
import Lws.StatCache
import Lws.Chunks
import Lws.ChunkSequence
import Lws.ChunkFlags
import Lws.ChunkResult
import Lws.ChunkCache
import Lws.Redirect
import Lws.Location
import Lws.LocationMoves
import Lws.LocationHandlers
import Lws.LocationOwnership
import Lws.LocationCounts
import Lws.LocationReuse
import Lws.LocationTimers
import Lws.Monitor
import Lws.Stream
import Lws.StreamThread
import Lws.StreamSafety
import Lws.StreamFinal
import Lws.StreamSeal
import Lws.Alloc
import Lws.RequestBody
import Lws.Framing
import Lws.StreamBody
import Lws.Profile
import Lws.Profiler
import Lws.ProfilerTimes
import Lws.ProfilerStack
import Lws.MonitorPost
import Lws.MonitorBody
import Lws.MonitorForm
import Lws.ProfilerClock
import Lws.ResponseHeader
import Lws.SetCookie
import Lws.ParseArgs
import Lws.Unescape
import Lws.RequestHeaders
import Lws.Json
import Lws.JsonResponse
import Lws.ErrorResponse
import Lws.MonitorContent
import Lws.Ledger
import Lws.TableMemory
import Lws.TableCreate
import Lws.TableKeys
import Lws.ProfilerDepth
import Lws.Inherit
import Lws.Conf
import Lws.ConfMerge
import Lws.Variables
import Lws.RequestCustody
import Lws.Traversal
import Lws.Html
import Lws.HtmlResponse
import Lws.NextPrime
import Lws.TableGen
import Lws.ProfileMemory
import Lws.LuaApi
import Lws.LuaState
import Lws.LuaInit
