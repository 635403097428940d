import SolarDrive.Http.ParserExact
import SolarDrive.Http.ParserTotal
import SolarDrive.Auth.Jwt
import SolarDrive.Lib.HttpMessage
import SolarDrive.Http.Response
import SolarDrive.Http.ResponseFraming
import SolarDrive.Api.Routes
import SolarDrive.Auth.Middleware
import SolarDrive.Server.RequestCallback
import SolarDrive.Lib.Pool
import SolarDrive.Api.Calls
import SolarDrive.Api.Services
import SolarDrive.Api.Upload
import SolarDrive.Api.Multipart
import SolarDrive.Api.Dispatch
import SolarDrive.Api.Exceptions
import SolarDrive.Api.OutOfRange
import SolarDrive.Metadata.Dao
import SolarDrive.Metadata.Exec
import SolarDrive.Metadata.Inversion
import SolarDrive.Runs.UploadDelete
import SolarDrive.Runs.UploadParts
import SolarDrive.Metadata.Lookups
import SolarDrive.Runs.History
import SolarDrive.Runs.Tenant
import SolarDrive.Runs.Record
import SolarDrive.Runs.Sessions
import SolarDrive.Runs.Fidelity
import SolarDrive.Runs.Sizes
import SolarDrive.Runs.PartObjects
import SolarDrive.Runs.ShareDownloads
import SolarDrive.Runs.ShareRace
import SolarDrive.Runs.ShareExpiry
import SolarDrive.Lib.Machine
import SolarDrive.Network.Timer
import SolarDrive.Network.TimerPlaces
import SolarDrive.Network.TimerOwnership
import SolarDrive.Network.TimerFiring
import SolarDrive.Network.TimerArming
import SolarDrive.Network.EventLoop
import SolarDrive.Network.ConnectionState
import SolarDrive.Network.Buffer
import SolarDrive.Network.TcpConnection
import SolarDrive.Network.OutputStream
import SolarDrive.Network.GracefulShutdown
import SolarDrive.Network.TcpServer
import SolarDrive.Api.HeaderReads
import SolarDrive.Server.HeaderCase
import SolarDrive.Ws.Codec
import SolarDrive.Ws.Handler
import SolarDrive.Server.Session
import SolarDrive.Server.Registry
import SolarDrive.Server.Closing
import SolarDrive.Server.Segments
import SolarDrive.Server.SessionLock
import SolarDrive.Metadata.Names
import SolarDrive.Metadata.Purge
import SolarDrive.Runs.HashIndex
import SolarDrive.Runs.SessionEnd
import SolarDrive.Runs.SessionFields
import SolarDrive.Runs.OneFile
import SolarDrive.Metadata.RedisLoss
import SolarDrive.Runs.Acknowledged
import SolarDrive.Lib.ReadCommitted
import SolarDrive.Metadata.Transactions
import SolarDrive.Runs.ConcurrentInserts
import SolarDrive.Metadata.Faults
import SolarDrive.Runs.FailedUpload
import SolarDrive.Runs.ListedObjects
import SolarDrive.Runs.NameConflicts
import SolarDrive.Runs.Deduplication
import SolarDrive.Auth.Malleability
import SolarDrive.Network.ByteQueue
import SolarDrive.Ws.DecodeBounds
import SolarDrive.Ws.RoundTrip
import SolarDrive.Cache.ExactWindow
import SolarDrive.Http.HeaderValues
import SolarDrive.Server.KeepAlive
import SolarDrive.Runs.Revocation
import SolarDrive.Runs.FolderTree
import SolarDrive.Http.StaticHandler
import SolarDrive.Http.RouterSegments
import SolarDrive.Storage.ObjectStore
import SolarDrive.Storage.Chunking
import SolarDrive.Storage.CutWrites
import SolarDrive.Api.PartArithmetic
import SolarDrive.Runs.SessionRoundTrip
import SolarDrive.Metadata.Collection
import SolarDrive.Network.Channel
import SolarDrive.Runs.FailedDownload
import SolarDrive.Lib.QueryText
import SolarDrive.Runs.SharePasswords
import SolarDrive.Api.FileNames
import SolarDrive.Auth.Base64RoundTrip
import SolarDrive.Api.QueryParams
import SolarDrive.Network.EpollPoller
import SolarDrive.Server.CloseFrame
import SolarDrive.Lib.Lending
import SolarDrive.Metadata.DbPool
import SolarDrive.Network.Acceptor
import SolarDrive.Lib.Namespace
import SolarDrive.Metadata.Constraints
import SolarDrive.Runs.Drive
import SolarDrive.Runs.GarbageCollection
import SolarDrive.Network.LoopTasks
import SolarDrive.Network.IoThread
import SolarDrive.Runs.Accounts
import SolarDrive.Runs.WholeUpload
import SolarDrive.Api.RouteOrder
import SolarDrive.Cache.ManyClients
import SolarDrive.Network.ConnectionLoops
