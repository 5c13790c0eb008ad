import Helios.Data.Memory
import Helios.Data.Layout
import Helios.Data.Gaps
import Helios.Data.Chain
import Helios.Data.Run
import Helios.Data.Bitmap
import Helios.Data.BitField
import Helios.Heap.Model
import Helios.Heap.Representation
import Helios.Heap.Malloc
import Helios.Heap.Free
import Helios.Heap.Session
import Helios.Process.Model
import Helios.Process.Queue
import Helios.Process.Invariant
import Helios.Process.Calls
import Helios.Process.Runs
import Helios.Process.Numbers
import Helios.Process.Kill
import Helios.Pmm.Model
import Helios.Pmm.Frames
import Helios.Pmm.Session
import Helios.Pmm.Reserved
import Helios.Pmm.Accounting
import Helios.Paging.Model
import Helios.Paging.Tables
import Helios.Paging.Reach
import Helios.Paging.Effects
import Helios.Paging.Agreement
import Helios.Paging.Runs
import Helios.Paging.Addressable
import Helios.Paging.Permissions
import Helios.Paging.KernelHeap
import Helios.Strings.Model
import Helios.Strings.Located
import Helios.Exec.Model
import Helios.Exec.Registry
import Helios.Exec.Failure
import Helios.Exec.Copy
import Helios.Exec.Page
import Helios.Exec.Placed
import Helios.Exec.Loading
import Helios.Exec.Reached
import Helios.Exec.Ownership
import Helios.Exec.Residue
import Helios.Exec.Image
import Helios.Exec.Success
import Helios.Data.Cpu
import Helios.Process.Dispatch
import Helios.Process.Enqueue
import Helios.Switch.Model
import Helios.Switch.RoundTrip
import Helios.Switch.Creation
import Helios.Scheduler.Lists
import Helios.Scheduler.Waking
import Helios.Scheduler.Runnable
import Helios.Scheduler.Context
import Helios.Switch.Ownership
import Helios.Paging.Tlb
import Helios.Data.Port
import Helios.Data.Answers
import Helios.Data.Struct
import Helios.Ata.Model
import Helios.Ata.Ports
import Helios.Ata.Addressing
import Helios.Ata.Records
import Helios.Ata.Transfers
import Helios.Ata.Requests
import Helios.Ata.Identify
import Helios.Heap.Requests
import Helios.Heap.FirstFit
import Helios.Heap.Canonical
import Helios.Heap.DoubleFree
import Helios.Heap.Contents
import Helios.Heap.Product
import Helios.Data.Search
import Helios.Device.Model
import Helios.Device.Registry
import Helios.Fs.Model
import Helios.Fs.Invariant
import Helios.Fs.Calls
import Helios.Fs.Files
import Helios.Fs.Mounts
import Helios.Process.Fields
import Helios.Syscall.Model
import Helios.Syscall.Runs
import Helios.Syscall.Wait
import Helios.Syscall.Break
import Helios.Syscall.Descriptors
import Helios.Data.Shift
import Helios.Terminal.Model
import Helios.Terminal.Page
import Helios.Syscall.Streams
import Helios.Fs.Streams
import Helios.Fs.Lookup
import Helios.Strings.Order
import Helios.Scheduler.Queue
import Helios.Timer.Delay
import Helios.Heap.Status
import Helios.Fs.Seek
import Helios.Heap.Clients
import Helios.Fs.Storage
import Helios.Fs.Residence
import Helios.Fs.Refinement
import Helios.Fs.Lifetime
import Helios.Terminal.Bounds
import Helios.Terminal.Colors
import Helios.Syscall.Keyboard
import Helios.Console.Model
import Helios.Console.Editing
import Helios.Console.Echo
import Helios.Strings.Move
import Helios.Strings.Search
import Helios.Data.Trap
import Helios.Interrupt.Stubs
import Helios.Interrupt.Resume
import Helios.Interrupt.Nesting
import Helios.Data.Bus
import Helios.Data.Pic
import Helios.Interrupt.Model
import Helios.Interrupt.Lines
import Helios.Interrupt.Controllers
import Helios.Interrupt.Refinement
import Helios.Interrupt.Delivery
import Helios.Interrupt.Clock
import Helios.Process.Turns
import Helios.Strings.Copy
import Helios.Process.Boot
import Helios.Process.Phases
import Helios.Syscall.Table
import Helios.Syscall.Kernel
import Helios.Syscall.Services
import Helios.Syscall.Progress
