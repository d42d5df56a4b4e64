import Ccos.Lib.Word
import Ccos.Lib.Run
import Ccos.Lib.Threads
import Ccos.Lib.Ledger
import Ccos.Lib.RadixTree
import Ccos.Lib.RadixSweep
import Ccos.Lib.Levels
import Ccos.Lib.Logged
import Ccos.Lib.ByteMem
import Ccos.Lib.Tiling
import Ccos.Lib.Links
import Ccos.Lib.Ring
import Ccos.Bitmap
import Ccos.Mm.Pframe
import Ccos.Mm.PframeLaws
import Ccos.Mm.PframeSession
import Ccos.Mm.E820
import Ccos.Vmm.Page
import Ccos.Vmm.PageEntry
import Ccos.Vmm.PageTree
import Ccos.Vmm.PageWalk
import Ccos.Vmm.PframeSource
import Ccos.Vmm.PageEdit
import Ccos.Vmm.PageRefine
import Ccos.Vmm.Translate
import Ccos.Vmm.Cow
import Ccos.Vmm.PageStores
import Ccos.Vmm.LowHalf
import Ccos.Vmm.CowFault
import Ccos.User.Memory
import Ccos.User.Munmap
import Ccos.User.Mmap
import Ccos.User.UserSpace
import Ccos.User.UserPages
import Ccos.User.Brk
import Ccos.User.MmapRange
import Ccos.Process.Schedule
import Ccos.Process.SchedPrio
import Ccos.Process.SchedRun
import Ccos.Sync.Mutex
import Ccos.Sync.MutexRun
import Ccos.Sync.Atomic
import Ccos.Sync.WaitQueue
import Ccos.Sync.MutexSteps
import Ccos.Sync.Semaphore
import Ccos.Sync.SemaphoreCoop
import Ccos.Sync.Rwlock
import Ccos.Sync.Condvar
import Ccos.Sync.CondvarRun
import Ccos.Process.Pid
import Ccos.Process.SchedRr
import Ccos.Process.SchedRrRun
import Ccos.Process.Process
import Ccos.Process.TaskKernel
import Ccos.Process.TaskView
import Ccos.Process.TaskStep
import Ccos.Process.TaskOrder
import Ccos.Process.PidRun
import Ccos.Process.Family
import Ccos.Process.Zombies
import Ccos.Process.ThreadJoin
import Ccos.Process.LiveCurrent
import Ccos.Process.AddressSpaces
import Ccos.Process.ForkFailure
import Ccos.Process.ThreadStack
import Ccos.Syscall.Table
import Ccos.Syscall.Sbrk
import Ccos.Syscall.Stores
import Ccos.Heap.Heap
import Ccos.Heap.Shape
import Ccos.Heap.FreeList
import Ccos.Heap.Coalesce
import Ccos.Heap.Expand
import Ccos.Heap.Alloc
import Ccos.Heap.Pointer
import Ccos.Heap.HeapRun
import Ccos.Heap.Release
import Ccos.Heap.AllocSize
import Ccos.Heap.Region
import Ccos.Heap.Notes
import Ccos.Heap.Resize
import Ccos.Mm.PframeRanges
import Ccos.Vmm.KernelSpace
import Ccos.Vmm.KernelRanges
import Ccos.Vmm.HugeFrames
import Ccos.Vmm.KernelAlloc
import Ccos.Vmm.KernelPages
import Ccos.User.SpaceRelease
import Ccos.Vmm.PageRange
import Ccos.Vmm.PageLevels
import Ccos.User.SharedHalf
import Ccos.Lib.Buffer
import Ccos.Fs.FsWorld
import Ccos.Fs.Ext2Inode
import Ccos.Fs.Ext2File
import Ccos.Fs.Ext2Dir
import Ccos.Fs.DirLookup
import Ccos.Fs.DirScan
import Ccos.Fs.InodeRecord
import Ccos.Fs.VfsInode
import Ccos.Fs.VfsPath
import Ccos.Fs.VfsFile
import Ccos.Fs.VfsDentry
import Ccos.Fs.VfsMountTable
import Ccos.Fs.VfsUmount
import Ccos.Driver.Ata
import Ccos.Driver.AtaTransfer
import Ccos.BitmapBytes
import Ccos.Base.Strings
import Ccos.Base.ListCut
