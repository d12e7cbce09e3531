import UtkKernel.Acpi.Entries
import UtkKernel.Acpi.Lists
import UtkKernel.Acpi.Mappings
import UtkKernel.Acpi.PageTree
import UtkKernel.Acpi.Tables
import UtkKernel.Acpi.Walks
import UtkKernel.Console.Bounds
import UtkKernel.Console.Formater
import UtkKernel.Console.Formatting
import UtkKernel.Console.NumberTexts
import UtkKernel.Console.Scrolling
import UtkKernel.Console.Sequences
import UtkKernel.Console.VgaText
import UtkKernel.Cpu.Context
import UtkKernel.Cpu.Switching
import UtkKernel.Critical.Balance
import UtkKernel.Critical.Calls
import UtkKernel.Critical.Model
import UtkKernel.Foundations.Accesses
import UtkKernel.Foundations.Arrivals
import UtkKernel.Foundations.BitGroups
import UtkKernel.Foundations.BitSets
import UtkKernel.Foundations.CStrings
import UtkKernel.Foundations.Exclusion
import UtkKernel.Foundations.Links
import UtkKernel.Foundations.LongDivision
import UtkKernel.Foundations.Loops
import UtkKernel.Foundations.Numerals
import UtkKernel.Foundations.OpenAddressing
import UtkKernel.Foundations.Probing
import UtkKernel.Foundations.Rings
import UtkKernel.Foundations.Runs
import UtkKernel.Foundations.SavedFlag
import UtkKernel.Foundations.SearchTree
import UtkKernel.Foundations.Segments
import UtkKernel.Foundations.Service
import UtkKernel.Foundations.Shifts
import UtkKernel.Foundations.Simulations
import UtkKernel.Foundations.Slices
import UtkKernel.Foundations.Stacks
import UtkKernel.Fs.Addressing
import UtkKernel.Fs.Archive
import UtkKernel.Fs.ChainEnds
import UtkKernel.Fs.Children
import UtkKernel.Fs.Device
import UtkKernel.Fs.Edits
import UtkKernel.Fs.InitRd
import UtkKernel.Fs.Listing
import UtkKernel.Fs.Octal
import UtkKernel.Fs.ParentPaths
import UtkKernel.Fs.ReadFile
import UtkKernel.Fs.RemoveDirectory
import UtkKernel.Fs.RemoveFile
import UtkKernel.Fs.RenameFile
import UtkKernel.Fs.ScanEnds
import UtkKernel.Fs.SizeReadings
import UtkKernel.Fs.TruncateFile
import UtkKernel.Fs.Ustar
import UtkKernel.Fs.WriteFile
import UtkKernel.Heap.Accounting
import UtkKernel.Heap.Allocate
import UtkKernel.Heap.Chunks
import UtkKernel.Heap.Correct
import UtkKernel.Heap.FreeLists
import UtkKernel.Heap.Initial
import UtkKernel.Heap.LargeEnough
import UtkKernel.Heap.Layout
import UtkKernel.Heap.Release
import UtkKernel.Heap.System
import UtkKernel.Interrupts.Clock
import UtkKernel.Interrupts.Delivery
import UtkKernel.Interrupts.Handlers
import UtkKernel.Interrupts.IoApic
import UtkKernel.Interrupts.Pic
import UtkKernel.Interrupts.PicService
import UtkKernel.Interrupts.Ticks
import UtkKernel.Interrupts.Timers
import UtkKernel.Libc.BlockCopies
import UtkKernel.Libc.Div64
import UtkKernel.Libc.ProgramD
import UtkKernel.Libc.Quotients
import UtkKernel.Memory.Blocks
import UtkKernel.Memory.BootMap
import UtkKernel.Memory.BootRefs
import UtkKernel.Memory.CopiedRanges
import UtkKernel.Memory.CopyOnWrite
import UtkKernel.Memory.DataPages
import UtkKernel.Memory.DataWalk
import UtkKernel.Memory.DeclareHw
import UtkKernel.Memory.Fork
import UtkKernel.Memory.FrameRefs
import UtkKernel.Memory.FrameRuns
import UtkKernel.Memory.FrameTables
import UtkKernel.Memory.Frames
import UtkKernel.Memory.FreeData
import UtkKernel.Memory.FreeRanges
import UtkKernel.Memory.FreedData
import UtkKernel.Memory.Mappings
import UtkKernel.Memory.Model
import UtkKernel.Memory.RoundTrip
import UtkKernel.Memory.Spaces
import UtkKernel.Memory.System
import UtkKernel.Memory.Takes
import UtkKernel.Memory.TempPages
import UtkKernel.Scheduler.Calls
import UtkKernel.Scheduler.Counts
import UtkKernel.Scheduler.ForkFailure
import UtkKernel.Scheduler.FutexCalls
import UtkKernel.Scheduler.FutexKeys
import UtkKernel.Scheduler.FutexRollback
import UtkKernel.Scheduler.FutexWakes
import UtkKernel.Scheduler.JoinResults
import UtkKernel.Scheduler.JoinSafety
import UtkKernel.Scheduler.JoinView
import UtkKernel.Scheduler.Joins
import UtkKernel.Scheduler.Model
import UtkKernel.Scheduler.ProcessTable
import UtkKernel.Scheduler.ProcessTree
import UtkKernel.Scheduler.QueueOrder
import UtkKernel.Scheduler.QueueSafety
import UtkKernel.Scheduler.Queues
import UtkKernel.Scheduler.Reaping
import UtkKernel.Scheduler.RoundRobin
import UtkKernel.Scheduler.Sleepers
import UtkKernel.Structures.KernelError
import UtkKernel.Structures.Kqueue
import UtkKernel.Structures.KqueueLinks
import UtkKernel.Structures.KqueueRepr
import UtkKernel.Structures.Queue
import UtkKernel.Structures.QueueStability
import UtkKernel.Structures.Uhashtable
import UtkKernel.Structures.UhashtableOps
import UtkKernel.Structures.UhashtableRemoval
import UtkKernel.Structures.UhashtableRepr
import UtkKernel.Structures.UhashtableRuns
import UtkKernel.Structures.Vector
import UtkKernel.Structures.VectorLists
import UtkKernel.Structures.VectorStorage
import UtkKernel.Sync.Fifo
import UtkKernel.Sync.Futex
import UtkKernel.Sync.FutexTable
import UtkKernel.Sync.Mutex
import UtkKernel.Sync.MutexDestroy
import UtkKernel.Sync.MutexFrame
import UtkKernel.Sync.MutexPriority
import UtkKernel.Sync.MutexRecursive
import UtkKernel.Sync.MutexSafety
import UtkKernel.Sync.Reports
import UtkKernel.Sync.Semaphore
import UtkKernel.Sync.SemaphoreConservation
import UtkKernel.Sync.SemaphoreDestroy
import UtkKernel.Sync.SemaphoreTurns
import UtkKernel.Sync.SemaphoreWakes
