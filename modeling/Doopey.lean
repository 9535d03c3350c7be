import Doopey.Block.AskBlock
import Doopey.Block.AskRemote
import Doopey.Block.AskedBlocks
import Doopey.Block.Block
import Doopey.Block.BlockLists
import Doopey.Block.BlockLoader
import Doopey.Block.BlockManager
import Doopey.Block.BlockNet
import Doopey.Block.BlockNode
import Doopey.Block.BlockResolver
import Doopey.Block.CheckReplica
import Doopey.Block.ComputedRuns
import Doopey.Block.CopyTraffic
import Doopey.Block.DeleteRequests
import Doopey.Block.Deletions
import Doopey.Block.DirectoryRuns
import Doopey.Block.FullLists
import Doopey.Block.GivenIDs
import Doopey.Block.LastingBlocks
import Doopey.Block.LocationAttr
import Doopey.Block.LocationMessages
import Doopey.Block.MachineLists
import Doopey.Block.MetaBlock
import Doopey.Block.MetaLayout
import Doopey.Block.OrderedLists
import Doopey.Block.ProcessedDeletions
import Doopey.Block.ReplicationRuns
import Doopey.Block.RestartedNodes
import Doopey.Block.SequentialReplication
import Doopey.Block.SparedBlocks
import Doopey.Block.TruthfulLists
import Doopey.Block.WellFormedLists
import Doopey.Common.Alarm
import Doopey.Common.AlarmRuns
import Doopey.Common.Base
import Doopey.Common.BodyTransfer
import Doopey.Common.CleanConfig
import Doopey.Common.ConfigFiles
import Doopey.Common.ConfigLoader
import Doopey.Common.Message
import Doopey.Common.MessageData
import Doopey.Common.Socket
import Doopey.Common.TaskPool
import Doopey.Common.TaskRuns
import Doopey.Common.TaskThread
import Doopey.File.Cluster
import Doopey.File.Convergence
import Doopey.File.DirRemoval
import Doopey.File.FailedUpload
import Doopey.File.FileManager
import Doopey.File.FileRemoval
import Doopey.File.FileTree
import Doopey.File.FileUploader
import Doopey.File.FreedStorage
import Doopey.File.HashList
import Doopey.File.HashRuns
import Doopey.File.MetaBounds
import Doopey.File.MetaRecords
import Doopey.File.MetaReuse
import Doopey.File.MetaWrites
import Doopey.File.NodeRemoval
import Doopey.File.OrderlyUpload
import Doopey.File.Path
import Doopey.File.Requests
import Doopey.File.Snapshot
import Doopey.File.TreeAdditions
import Doopey.File.TreeDump
import Doopey.File.TreeKeys
import Doopey.File.TreeLinks
import Doopey.File.TreeListings
import Doopey.File.TreeRefinement
import Doopey.File.TreeRelease
import Doopey.File.TreeRemoval
import Doopey.File.TreeReplay
import Doopey.File.TreeRuns
import Doopey.File.TreeViews
import Doopey.File.UploadAcks
import Doopey.Foundation.Buffer
import Doopey.Foundation.Bytes
import Doopey.Foundation.Components
import Doopey.Foundation.Decimal
import Doopey.Foundation.DoublyLinked
import Doopey.Foundation.Erasing
import Doopey.Foundation.Except
import Doopey.Foundation.Fields
import Doopey.Foundation.FileWrite
import Doopey.Foundation.FirstMax
import Doopey.Foundation.Hexadecimal
import Doopey.Foundation.Holdings
import Doopey.Foundation.MapCursor
import Doopey.Foundation.Namespace
import Doopey.Foundation.Rebuilding
import Doopey.Foundation.Replication
import Doopey.Foundation.Runs
import Doopey.Foundation.Tokens
import Doopey.Machine.Client
import Doopey.Machine.Download
import Doopey.Machine.DownloadPool
import Doopey.Machine.DownloadRace
import Doopey.Machine.DownloadReplies
import Doopey.Machine.FileBlocks
import Doopey.Machine.LocatedDownload
import Doopey.Machine.RemovalDownload
import Doopey.Machine.RemovalNet
import Doopey.Machine.RemovalRuns
import Doopey.Machine.Restart
import Doopey.Machine.RestartNet
import Doopey.Machine.RestartRuns
import Doopey.Machine.ServerSnapshot
import Doopey.Machine.StorageDownload
import Doopey.Machine.StorageNet
import Doopey.Machine.StorageProgress
import Doopey.Machine.StorageRuns
import Doopey.Machine.UploadDownload
import Doopey.Machine.WaitingLoop
import Doopey.Network.Announcements
import Doopey.Network.Broadcast
import Doopey.Network.ComputedJoins
import Doopey.Network.Dispatcher
import Doopey.Network.DispatcherLoop
import Doopey.Network.Joining
import Doopey.Network.KeptIDs
import Doopey.Network.Neighbors
import Doopey.Network.Picking
import Doopey.Network.Restarts
import Doopey.Network.Router
import Doopey.Network.RouterNet
import Doopey.Network.SequentialJoins
import Doopey.Network.TableExchange
