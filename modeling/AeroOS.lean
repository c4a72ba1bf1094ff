import AeroOS.Lib.Bytes
import AeroOS.Lib.Chain
import AeroOS.Lib.Run
import AeroOS.Lib.Cells
import AeroOS.Lib.X86
import AeroOS.Lib.Sections
import AeroOS.Lib.Tree
import AeroOS.Lib.Insertion
import AeroOS.Lib.Labelled
import AeroOS.Lib.Separated
import AeroOS.Lib.Search
import AeroOS.Lib.Paging
import AeroOS.Lib.PageWalk
import AeroOS.Lib.PageRoot
import AeroOS.Lib.Hoare
import AeroOS.Lib.Painting
import AeroOS.Lib.Fifo
import AeroOS.Lib.Decimal
import AeroOS.Lib.Words
import AeroOS.Lib.Terminal
import AeroOS.Lib.Bresenham
import AeroOS.Ata
import AeroOS.Fat32.Basic
import AeroOS.Fat32.Dir
import AeroOS.Fat32.Ops
import AeroOS.Fat32.Volume
import AeroOS.Fat32.Table
import AeroOS.Fat32.Ownership
import AeroOS.Fat32.Slots
import AeroOS.Fat32.Names
import AeroOS.Fat32.Data
import AeroOS.Fat32.Frame
import AeroOS.Fat32.NameEdits
import AeroOS.Fat32.WellFormed
import AeroOS.Fat32.Format
import AeroOS.Fat32.Write
import AeroOS.Fat32.WriteLaw
import AeroOS.Fat32.ReadSlices
import AeroOS.Fat32.Commit
import AeroOS.Fat32.DirWrite
import AeroOS.Fat32.Effects
import AeroOS.Fat32.Create
import AeroOS.Fat32.DirEffects
import AeroOS.Fat32.Persist
import AeroOS.Fat32.NoCrossLink
import AeroOS.Fat32.InodeIdentity
import AeroOS.Fat32.CacheSync
import AeroOS.Fat32.Removal
import AeroOS.Fat32.Scans
import AeroOS.Fat32.OutOfClusters
import AeroOS.Fat32.DirSearch
import AeroOS.Syscalls.Fd
import AeroOS.Proc.Table
import AeroOS.Proc.Signal
import AeroOS.Scheduler.Switch
import AeroOS.Scheduler.Calls
import AeroOS.Scheduler.System
import AeroOS.Proc.Lifecycle
import AeroOS.Proc.Delivery
import AeroOS.Scheduler.Waitpid
import AeroOS.Scheduler.Effects
import AeroOS.Scheduler.SwitchLocks
import AeroOS.Scheduler.PidHistory
import AeroOS.Scheduler.Statuses
import AeroOS.Scheduler.ActiveSpace
import AeroOS.Scheduler.SingleRunning
import AeroOS.Scheduler.Orphans
import AeroOS.Scheduler.Zombies
import AeroOS.Scheduler.RoundRobin
import AeroOS.Scheduler.ForkWindow
import AeroOS.Scheduler.BootLocks
import AeroOS.Memory.FrameAllocator
import AeroOS.Memory.PageTable
import AeroOS.Memory.Fork
import AeroOS.Memory.Elf
import AeroOS.Memory.Load
import AeroOS.Memory.Image
import AeroOS.Memory.Panics
import AeroOS.Memory.Leaks
import AeroOS.Memory.Dealloc
import AeroOS.Memory.Spaces
import AeroOS.Syscalls.Trampoline
import AeroOS.Fs.Vfs
import AeroOS.Fat32.Init
import AeroOS.Fat32.Transfers
import AeroOS.Build.Image
import AeroOS.Build.Layout
import AeroOS.Build.Mounted
import AeroOS.Fs.Devfs
import AeroOS.Fs.Tmpfs
import AeroOS.Fs.Removal
import AeroOS.Fs.Mounts
import AeroOS.Fs.Paths
import AeroOS.Syscalls.Perm
import AeroOS.Syscalls.Dispatch
import AeroOS.Syscalls.FbCommit
import AeroOS.Syscalls.DeviceAccess
import AeroOS.Syscalls.Input
import AeroOS.Syscalls.MousePackets
import AeroOS.Syscalls.Offsets
import AeroOS.Syscalls.ExecArgs
import AeroOS.Memory.Isolation
import AeroOS.Memory.SpaceRuns
import AeroOS.Memory.Integrity
import AeroOS.Memory.Programs
import AeroOS.Wm.FramebufferInfo
import AeroOS.Wm.Compositor
import AeroOS.Wm.Window
import AeroOS.Wm.ZOrder
import AeroOS.Wm.Bookkeeping
import AeroOS.Wm.InputRouter
import AeroOS.Wm.Drag
import AeroOS.Wm.Focus
import AeroOS.Wm.Composite
import AeroOS.Wm.Covering
import AeroOS.Build.ReadBack
import AeroOS.Fs.Resolution
import AeroOS.Fs.Contents
import AeroOS.Fs.PathMap
import AeroOS.Fs.WholeFiles
import AeroOS.Fs.DiskReads
import AeroOS.Boot.Initramfs
import AeroOS.Boot.Launch
import AeroOS.Syscalls.MakeDir
import AeroOS.Syscalls.FailedOpen
import AeroOS.Syscalls.Stdin
import AeroOS.Syscalls.Utf8
import AeroOS.Fat32.PartitionBounds
import AeroOS.Fat32.ShortNames
import AeroOS.Fat32.ListedNames
import AeroOS.Fat32.NewEntries
import AeroOS.Fat32.Remount
import AeroOS.Fat32.Tidy
import AeroOS.Fat32.Spares
import AeroOS.Fat32.FileRuns
import AeroOS.Fat32.Durable
import AeroOS.Fat32.EntryEffects
import AeroOS.Fat32.NewDirs
import AeroOS.Fat32.InsertEntry
import AeroOS.Fat32.DirTree
import AeroOS.Fat32.NameHistory
import AeroOS.Fat32.FaultyUnlink
import AeroOS.Fat32.SizeEntry
import AeroOS.Fat32.TruncateLaw
import AeroOS.Ata.Pio
import AeroOS.Sysutils.Calls
import AeroOS.Sysutils.Cat
import AeroOS.Sysutils.Dirents
import AeroOS.Sysutils.Ls
import AeroOS.Sysutils.Numbers
import AeroOS.Sysutils.Shell
import AeroOS.Sysutils.Kill
import AeroOS.Interrupts.ScancodeRing
import AeroOS.Fat32.ChainAlgebra
import AeroOS.AeroFormat
import AeroOS.Vga.Writer
import AeroOS.FlutterShell.Render
import AeroOS.FlutterAdapter.Framebuffer
import AeroOS.FlutterAdapter.Input
import AeroOS.Mem
