import XxCore.Coroutines.BranchSafety
import XxCore.Coroutines.Select
import XxCore.Sync.AtomicWaiterResolve
import XxCore.Sync.Channel.OneshotClosed
import XxCore.Sync.BroadcastSequential
import XxCore.Sync.DropAll
import XxCore.Sync.MutexWakes
import XxCore.Sync.WaitListClose
import XxCore.Sync.WaitListWake
import XxCore.Sync.WaitListResolve
import XxCore.Sync.Channel.QueueFifo
import XxCore.Sync.Channel.QueueSafety
import XxCore.Sync.Channel.ChannelQuiescent
import XxCore.Io.BufReaderForward
import XxCore.Io.BufReaderAtomic
import XxCore.Io.BufReaderRewind
import XxCore.Io.BufWriterFlow
import XxCore.Io.BufWriterSeek
import XxCore.Io.BufWriterPosition
import XxCore.Io.SeekAmount
import XxCore.Io.Lines
import XxCore.Io.VectoredAgree
import XxCore.Io.VectoredInterrupt
import XxCore.Io.TypedStream
import XxCore.Container.LinkedList
import XxCore.Sync.RawWaitListWake
import XxCore.Coroutines.ContextInterrupt
import XxCore.Coroutines.SpawnOutput
import XxCore.Coroutines.ExecutorStack
import XxCore.ThreadPool.PoolAccounts
import XxCore.ThreadPool.PoolCancel
import XxCore.ThreadPool.PoolCancelAll
import XxCore.Container.LinkedListBack
import XxCore.Sync.WaitListCount
import XxCore.Future.BlockOnSafety
import XxCore.Error.Downcast
import XxCore.Error.Convert
import XxCore.Macros.SelectMap
import XxCore.Sync.Channel.ChannelLoads
import XxCore.Io.UninitBuf
import XxCore.Io.Advance
import XxCore.Os.IoUringDetect
import XxCore.Log.StructName
import XxCore.ThreadPool.NotifyDrain
import XxCore.Fiber.SwitchResumes
import XxCore.Sync.BroadcastRecvWakes
import XxCore.Sync.Channel.OneshotWakes
import XxCore.Coroutines.Join
import XxCore.Os.Dirent
import XxCore.Io.WriteFmt
import XxCore.Log.Logger
import XxCore.Sync.WaitListSpin
