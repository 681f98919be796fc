import BitzServer.Lib.Feed
import BitzServer.Lib.Fields
import BitzServer.Lib.Numeral
import BitzServer.Lib.StableSort
import BitzServer.Icap.Stream
import BitzServer.Icap.Lines
import BitzServer.Icap.Chunked
import BitzServer.Icap.ChunkedBody
import BitzServer.Theorems.ChunkedRoundTrip
import BitzServer.Icap.Header
import BitzServer.Icap.Encapsulated
import BitzServer.Icap.Request
import BitzServer.Icap.HeaderBlock
import BitzServer.Theorems.HeaderReader
import BitzServer.Icap.ReqData
import BitzServer.Icap.Message
import BitzServer.Theorems.RequestData
import BitzServer.Icap.Response
import BitzServer.Theorems.EncapsulatedResponse
import BitzServer.Icap.WireRequest
import BitzServer.Server.RequestHandler
import BitzServer.Server.Worker
import BitzServer.Theorems.IncompleteBody
import BitzServer.Theorems.ConnectionFraming
import BitzServer.Lib.Runs
import BitzServer.Lib.FileSystem
import BitzServer.Lib.NewDirectories
import BitzServer.Lib.Slots
import BitzServer.Lib.Pairs
import BitzServer.Server.Manager
import BitzServer.Server.Process
import BitzServer.Theorems.WorkerPool
import BitzServer.Theorems.LostWakeup
import BitzServer.Theorems.PreviewProtocol
import BitzServer.Server.Echo
import BitzServer.Theorems.EchoService
import BitzServer.Theorems.ChunkGrammar
import BitzServer.Theorems.SentPieces
import BitzServer.Theorems.HeaderFields
import BitzServer.Theorems.RequestBudget
import BitzServer.Server.Termination
import BitzServer.Theorems.ManagerShutdown
import BitzServer.Server.WorkerProcess
import BitzServer.Theorems.WorkerShutdown
import BitzServer.Server.ManageWorkers
import BitzServer.Theorems.PoolAccounting
import BitzServer.Theorems.HostileOffsets
import BitzServer.Theorems.EncapsulatedList
import BitzServer.Theorems.ChunkedReaders
import BitzServer.Theorems.ChunkSizes
import BitzServer.Theorems.PayloadHistory
import BitzServer.Theorems.ConnectionHeader
import BitzServer.Server.Util
import BitzServer.Theorems.StartupDirectories
import BitzServer.Theorems.SplitFields
import BitzServer.Theorems.StreamReaders
import BitzServer.Server.Config
import BitzServer.Server.Modules
import BitzServer.Server.ModuleEvents
import BitzServer.Theorems.ModuleHandles
import BitzServer.Theorems.HandlerConfigs
import BitzServer.Icap.LookAhead
import BitzServer.Theorems.Dialogue
import BitzServer.Theorems.PreviewHandshake
import BitzServer.Theorems.HeaderMap
import BitzServer.Lib.FileLock
import BitzServer.Server.Daemon
import BitzServer.Server.Service
import BitzServer.Theorems.PidFile
import BitzServer.Theorems.ResponseReadBack
import BitzServer.Theorems.ServiceRuns
import BitzServer.Lib.Heap
import BitzServer.Server.Objects
import BitzServer.Theorems.EchoConversation
import BitzServer.Theorems.WorkerObjects
import BitzServer.Icap.StreamPrograms
import BitzServer.Lib.Outage
import BitzServer.Theorems.BrokenConnection
import BitzServer.Icap.Text
import BitzServer.Lib.KeyMap
import BitzServer.Lib.Online
import BitzServer.Theorems.PoolRefinement
