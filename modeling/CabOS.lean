import CabOS.Arch.AArch64.VmmConcurrent
import CabOS.Cmdline.Flags
import CabOS.Cmdline.Grammar
import CabOS.Cmdline.Number
import CabOS.Debug.IntervalRuns
import CabOS.Debug.LookupLocation
import CabOS.Debug.RoundTrip
import CabOS.Devices.BlockConcurrent
import CabOS.Devices.FramebufferBytes
import CabOS.Devices.VirtioBlk
import CabOS.Devices.Mcfg
import CabOS.Memory.Dma
import CabOS.Memory.FileFaults
import CabOS.Memory.FixedRanges
import CabOS.Memory.FreeSetRuns
import CabOS.Memory.Heap.BuddyPages
import CabOS.Memory.Heap.Realloc
import CabOS.Memory.VirtualMemoryRuns
import CabOS.Sync.BoundedBuffer
import CabOS.Sync.CanYield
import CabOS.Sync.IntMutex
import CabOS.Sync.Promise
import CabOS.Sync.RwLock
import CabOS.Thread.Ownership
import CabOS.Syscall.Fs
import CabOS.Thread.Sleep
import CabOS.Coroutine
import CabOS.Pid
import CabOS.QemuTest
import CabOS.SpinBarrier
import CabOS.Fs.Ext2.Reads
import CabOS.Fs.Ext2.Sizes
import CabOS.Fs.Ext2.Slots
