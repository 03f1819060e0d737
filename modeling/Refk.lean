import Refk.Lib.Assoc
import Refk.Lib.Run
import Refk.Lib.Chain
import Refk.Lib.Forest
import Refk.Lib.Bytes
import Refk.Lib.Ring
import Refk.Lib.Cyclic
import Refk.Lib.TreeWalk
import Refk.Lib.Heap
import Refk.Lib.X86
import Refk.Lib.X86System
import Refk.Lib.X86Lock
import Refk.Clib.Avl
import Refk.Clib.AvlMap
import Refk.Clib.AvlWindow
import Refk.Clib.AvlShape
import Refk.Clib.Comm
import Refk.Clib.CommFifo
import Refk.Clib.CommExact
import Refk.Clib.Mem
import Refk.Clib.CommWindow
import Refk.Clib.Atomic
import Refk.Rlib.Sem
import Refk.Klib.Heap
import Refk.Rlib.Heap
import Refk.Clib.Str
import Refk.Clib.Compare
import Refk.Klib.Kmem
import Refk.Klib.FreeList
import Refk.Klib.Paging
import Refk.Klib.Memcpy
import Refk.Klib.Create
import Refk.Klib.Refs
import Refk.Klib.Layout
import Refk.Klib.Work
import Refk.Klib.CreateRoot
import Refk.Klib.SharedWindows
import Refk.Klib.Synch
import Refk.Klib.Spinlock
import Refk.Klib.Task
import Refk.Klib.Elf
import Refk.Kernel.Multiboot
import Refk.Kernel.Kmem
import Refk.Kernel.Transfer
import Refk.Kernel.Interrupt
import Refk.Kernel.Pci
import Refk.Kernel.PciProbe
import Refk.Kernel.Apics
import Refk.Kernel.Ioapic
import Refk.Kernel.AddressSpace
import Refk.Kernel.LoadElf
import Refk.Kernel.BootPaging
import Refk.Scheduler.Mman
import Refk.Scheduler.MmanMapping
import Refk.Scheduler.MmanExact
import Refk.Scheduler.MmanIsolated
import Refk.Scheduler.MmanNewRoot
import Refk.Scheduler.MmanApart
import Refk.Scheduler.MmanCreate
import Refk.Scheduler.MmanRefs
import Refk.Scheduler.MmanCount
import Refk.Scheduler.MmanRoots
import Refk.Scheduler.MmanFrame
import Refk.Scheduler.MmanRootCount
import Refk.Scheduler.MmanInverse
import Refk.Scheduler.MmanPrivate
import Refk.Scheduler.MmanTidy
import Refk.Scheduler.State
import Refk.Scheduler.Synch
import Refk.Scheduler.SynchFrame
import Refk.Scheduler.SynchWait
import Refk.Scheduler.SynchIndex
import Refk.Scheduler.SynchMeet
import Refk.Scheduler.Task
import Refk.Scheduler.Listen
import Refk.Scheduler.Request
import Refk.Scheduler.TaskFrame
import Refk.Scheduler.TaskRun
import Refk.Scheduler.TaskTables
import Refk.Scheduler.TaskStart
import Refk.Scheduler.TaskSupply
import Refk.Scheduler.TaskSlots
import Refk.Scheduler.TaskWindows
import Refk.Scheduler.TaskRoots
import Refk.Scheduler.MmanRun
import Refk.Scheduler.MmanForeign
import Refk.Scheduler.MmanIsolation
import Refk.Scheduler.Choose
import Refk.Scheduler.Spared
import Refk.Scheduler.MmanLookup
import Refk.Scheduler.RootArg
import Refk.Scheduler.MmanMirror
import Refk.Scheduler.MmanProtect
import Refk.Scheduler.Forward
import Refk.Scheduler.ListenRun
import Refk.Scheduler.Records
import Refk.Scheduler.Queue
import Refk.Scheduler.Schedulable
import Refk.Scheduler.Dispatch
import Refk.Scheduler.Names
import Refk.Scheduler.WaitLists
import Refk.Rlib.Anonymous
import Refk.Rlib.Scheduler
import Refk.Rlib.LocalTask
import Refk.Rlib.Unanswered
