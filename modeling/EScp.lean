import EScp.Transition
import EScp.CompletionRing
import EScp.FileStat
import EScp.BlockWrites
import EScp.ConnectionNonce
import EScp.LapRing
import EScp.MetaBye
import EScp.MetaFifo
import EScp.MetaSend
import EScp.Handshake
import EScp.ListingExit
import EScp.ListingComplete
import EScp.ListingDeadlock
import EScp.CksumWorker
import EScp.ReceiverExit
import EScp.DataFrame
import EScp.FrameReplay
import EScp.Confirmation
import EScp.FileClaims
import EScp.FileAttach
import EScp.FileChecksum
import EScp.SendFileFinish
import EScp.ReceiveFilesClose
import EScp.ChecksumContent
import EScp.NetworkWrite
import EScp.ShortRead
import EScp.ShortWrite
import EScp.IterateFiles
import EScp.FileMap
import EScp.FileJoin
import EScp.ListingFailure
import EScp.ControlMessage
import EScp.EngineContract
import EScp.UringTokens
import EScp.SparseWrite
import EScp.WorkerCache
import EScp.BlockBuffer
import EScp.AddFileDescriptors
import EScp.ParseDest
import EScp.PrefixCheck
import EScp.BackOff
import EScp.MetaStarvation
import EScp.LogRing
import EScp.HumanSize
import EScp.CpuMask
import EScp.PortRange
import EScp.WriteError
import EScp.SessionContent
import EScp.MetaConnection
import EScp.Sharing
import EScp.FilesOverConnections
import EScp.ConnectionStartEnd
import EScp.ControlChannel
import EScp.ListingTree
import EScp.TreeCopy
import EScp.Negotiation
import EScp.DummyEngine
import EScp.ReceiverErrors
