import ZyOs.Thread.Scheduler
import ZyOs.Thread.SchedulerInvariant
import ZyOs.Thread.Lock
import ZyOs.Thread.LockSafety
import ZyOs.Thread.PidAllocation
import ZyOs.Kernel.Bitmap
import ZyOs.Kernel.BitmapScan
import ZyOs.Kernel.List
import ZyOs.Memory.FreeLists
import ZyOs.Memory.HeapCalls
import ZyOs.Memory.HeapRun
import ZyOs.Lib.Accesses
import ZyOs.Memory.HeapTlbSafety
import ZyOs.Memory.PageRun
import ZyOs.Lib.Interleaving
import ZyOs.Lib.Sequential
import ZyOs.Memory.PoolLocks
import ZyOs.Memory.PoolLocksSafety
import ZyOs.Memory.Mmu
import ZyOs.Memory.MmuTables
import ZyOs.Userprog.ActiveDirectory
import ZyOs.Userprog.PageDirectories
import ZyOs.Userprog.Fork
import ZyOs.Userprog.ForkCopy
import ZyOs.Fs.OpenFiles
import ZyOs.Fs.OpenTables
import ZyOs.Fs.InodePools
import ZyOs.Fs.SharedDescriptors
import ZyOs.Fs.Writers
import ZyOs.Lib.Components
import ZyOs.Lib.Ring
import ZyOs.Device.IoQueue
import ZyOs.Device.IoQueueSafety
import ZyOs.Device.IdeChannel
import ZyOs.Device.IdeHandshake
import ZyOs.Fs.Disk
import ZyOs.Fs.InodeTable
import ZyOs.Fs.PathSearch
import ZyOs.Fs.Format
import ZyOs.Fs.PathResolution
import ZyOs.Fs.DirStreams
import ZyOs.Fs.StreamIndependence
import ZyOs.Fs.DirListing
import ZyOs.Fs.CanonicalPath
import ZyOs.Fs.Getcwd
import ZyOs.Shell.WashPath
import ZyOs.Lib.OnePlace
import ZyOs.Fs.Volume
import ZyOs.Fs.Directory
import ZyOs.Fs.DirectorySlots
import ZyOs.Fs.DirectoryInsert
import ZyOs.Fs.DirectoryDelete
import ZyOs.Fs.DirectoryMap
import ZyOs.Fs.FileData
import ZyOs.Fs.CallState
import ZyOs.Fs.Calls
import ZyOs.Lib.Returns
import ZyOs.Fs.HeapLedger
import ZyOs.Fs.FileLedger
import ZyOs.Fs.HeapNeutral
import ZyOs.Fs.HeapRuns
import ZyOs.Fs.DeleteEnds
import ZyOs.Fs.FileArithmetic
import ZyOs.Kernel.BitmapFree
import ZyOs.Fs.FileLimits
import ZyOs.Memory.PageDemand
import ZyOs.Memory.MallocExhaustion
import ZyOs.Memory.PageExhaustion
import ZyOs.Fs.SearchEffects
import ZyOs.Fs.FilePositions
import ZyOs.Fs.OpenFailures
import ZyOs.Fs.DiskFull
import ZyOs.Fs.Exhausting
import ZyOs.Fs.DiskFullCalls
import ZyOs.Fs.InodeRecords
import ZyOs.Fs.EntryRemoval
import ZyOs.Fs.InodeRelease
import ZyOs.Fs.VolumeTree
import ZyOs.Fs.TreeRemoval
import ZyOs.Fs.TreeSearch
import ZyOs.Fs.UnlinkTree
import ZyOs.Fs.RmdirTree
import ZyOs.Fs.OwnBlocks
import ZyOs.Fs.EntryCounts
import ZyOs.Fs.EmptyDirectory
import ZyOs.Fs.EntryNames
import ZyOs.Fs.DescriptorTables
import ZyOs.Fs.DescriptorFaults
import ZyOs.Fs.TransferBounds
import ZyOs.Fs.PathDepth
import ZyOs.Fs.NameBuffers
import ZyOs.Device.PartitionScan
import ZyOs.Device.PartitionEnds
import ZyOs.Device.PartitionLayout
import ZyOs.Device.PartitionRecords
import ZyOs.Shell.WashBuffer
import ZyOs.Shell.Readline
import ZyOs.Shell.CmdParse
import ZyOs.Memory.PoolLayout
import ZyOs.Memory.PageWalk
import ZyOs.Userprog.ForkChain
import ZyOs.Userprog.ForkExhaustion
import ZyOs.Device.FlatTransfer
import ZyOs.Fs.FormatScan
import ZyOs.Fs.FileBlocks
import ZyOs.Lib.Windows
import ZyOs.Device.EarlySleep
import ZyOs.Device.Keyboard
import ZyOs.Device.KeyboardKeys
import ZyOs.Device.Typing
import ZyOs.Kernel.ListHeap
import ZyOs.Kernel.Print
import ZyOs.Kernel.PrintText
import ZyOs.Kernel.Stdio
import ZyOs.Kernel.StdioText
import ZyOs.Fs.FileContents
import ZyOs.Lib.Simulation
import ZyOs.Fs.FileStore
import ZyOs.Lib.Words
import ZyOs.Lib.Processor
import ZyOs.Kernel.InterruptEntry
import ZyOs.Thread.SwitchTo
import ZyOs.Thread.Contexts
import ZyOs.Thread.Fairness
import ZyOs.Shell.Session
import ZyOs.Boot.SetupPage
import ZyOs.Boot.KernelInit
import ZyOs.Boot.Loader
import ZyOs.Kernel.InterruptGates
import ZyOs.Kernel.InterruptController
import ZyOs.Device.Console
import ZyOs.Fs.TableRefinement
import ZyOs.Memory.PoolAlone
import ZyOs.Userprog.ForkPages
import ZyOs.Memory.MmuRefinement
import ZyOs.Memory.WalkRefinement
