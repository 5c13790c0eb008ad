import Helios.Interrupt.Clock
import Helios.Strings.Located
import Helios.Syscall.Streams
import Helios.Syscall.Table
import Helios.Timer.Delay

namespace Helios.Syscall

open Helios.Data Helios.Interrupt Helios.Process Helios.Strings Helios.Terminal Helios.Timer

/-! `syscall_handler` on the frame of an interrupt, with the handlers that
`init_syscalls` registers.

A call has no value where a handler follows a `NULL` `current_process` or does
not return, and where `irq_handler` gets at `syscall_handler` or past
`interrupt_handlers`.  Nothing calls `ramdisk_register`, so `ramdisk` is empty
and `ramdisk_load` finds nothing. -/

/-- The fields of `registers_t` that `syscall_handler` uses. -/
structure Registers where
  eax : Word
  ebx : Word
  ecx : Word
  edx : Word
  esi : Word
  edi : Word
deriving Repr, DecidableEq

/-- The registers of a call, and the number that `irq_handler` reads through its
argument if the call raises an interrupt: the stub pushes no pointer. -/
structure SystemCall where
  regs : Registers
  seen : Nat
deriving Repr, DecidableEq

/-- The state that the handlers share. -/
structure Kernel where
  manager : ProcessManager
  timer : Counter
  console : Console

inductive Handler where
  | sysExit
  | sysFork
  | sysRead
  | sysWrite
  | sysOpen
  | sysClose
  | sysExecve
  | sysWaitpid
  | sysBrk
  | sysGetpid
  | sysSleep
  | sysGettime
  | sysYield
  | sysSbrk
  | sysKill
deriving Repr, DecidableEq

/-- `screen_putstr` on a string in memory.  A string that does not end within
`2 ^ 32` bytes does not end. -/
def putstrAt (memory : Memory) : Nat → Nat → Screen → Option Screen
  | 0, _, _ => none
  | fuel + 1, address, screen =>
      if memory address = 0 then some screen
      else putstrAt memory fuel (u32 (address + 1)) (screenPutchar screen (memory address))

/-- The bytes of `"execve: not found: "` and `"\n"`. -/
def execveMessage : CString :=
  ⟨[101, 120, 101, 99, 118, 101, 58, 32, 110, 111, 116, 32, 102, 111, 117, 110, 100, 58, 32], by decide⟩
def newline : CString := ⟨[10], by decide⟩

/-- The branch of `sys_execve` for a path that `ramdisk_load` does not find. -/
def execveNotFound (console : Console) (path : Nat) : Option Console :=
  let screen := screenPutstr (screenSetcolor console.screen 4 0) execveMessage
  (putstrAt console.memory 4294967296 path screen).map fun screen =>
    { console with screen := screenPutstr screen newline }

def openAt (memory : Memory) (path : Nat) : Int :=
  if strcmpAt memory path Fs.devTty = 0 ∨ strcmpAt memory path Fs.devConsole = 0 then 0
  else if strcmpAt memory path Fs.devStdout = 0 then 1
  else if strcmpAt memory path Fs.devStderr = 0 then 2
  else -1

def sysExit (manager : ProcessManager) (exitCode : Int) : Option (ProcessManager × Int) :=
  (exitProcess manager exitCode).map (·, 0)

def sysFork (manager : ProcessManager) : Option (ProcessManager × Int) :=
  (forkProcess manager).map fun (manager, child) =>
    (manager, child.elim (-1) fun slot => signed (manager.pid slot))

def getPid (manager : ProcessManager) : Nat := manager.currentProcess.elim 0 manager.pid

def sysSleep (manager : ProcessManager) (milliseconds : Nat) : Option (ProcessManager × Int) :=
  (sleepProcess manager milliseconds).map (·, 0)

namespace Kernel

variable (kernel : Kernel)

/-- The kernel after a handler that works on the process table. -/
def process (result : Option (ProcessManager × Int)) : Option (Kernel × Int) :=
  result.map fun (manager, code) => ({ kernel with manager }, code)

/-- `sys_waitpid`, with the write through `status`. -/
def waitpid (pid : Int) (status : Nat) (options : Int) : Option (Kernel × Int) :=
  (Syscall.sysWaitpid kernel.manager pid (status ≠ 0) options).map fun (manager, code, written) =>
    ({ kernel with
        manager
        console.memory :=
          written.elim kernel.console.memory fun value =>
            kernel.console.memory.store32 status (value % 4294967296).toNat }, code)

end Kernel

/-- `sys_execve`, with nothing in `ramdisk`. -/
def execve (kernel : Kernel) (path : Nat) : Option (Kernel × Int) :=
  (execveNotFound kernel.console path).map fun console => ({ kernel with console }, -1)

/-- `sys_yield`; `yield` raises vector 32. -/
def yield (kernel : Kernel) (seen : Nat) : Port (Option (Kernel × Int)) := do
  if seen < 256 ∧ seen ≠ 0x80 then
    let timer ← irqHandler timerHandlers seen kernel.timer
    pure (some ({ kernel with timer }, 0))
  else pure none

/-- A handler, called with the registers of the frame. -/
def Handler.call (behind : UInt8) (seen : Nat) (kernel : Kernel) (regs : Registers) :
    Handler → Port (Option (Kernel × Int))
  | .sysExit => pure (kernel.process (Syscall.sysExit kernel.manager regs.ebx.toInt))
  | .sysFork => pure (kernel.process (Syscall.sysFork kernel.manager))
  | .sysRead => do
      let (console, code) ← Syscall.sysRead behind kernel.console regs.ebx.toInt regs.ecx.toNat regs.edx.toNat
      pure (some ({ kernel with console }, code))
  | .sysWrite =>
      let (console, code) := Syscall.sysWrite kernel.console regs.ebx.toInt regs.ecx.toNat regs.edx.toNat
      pure (some ({ kernel with console }, code))
  | .sysOpen => pure (some (kernel, openAt kernel.console.memory regs.ebx.toNat))
  | .sysClose => pure (kernel.process (Syscall.sysClose kernel.manager regs.ebx.toInt))
  | .sysExecve => pure (execve kernel regs.ebx.toNat)
  | .sysWaitpid => pure (kernel.waitpid regs.ebx.toInt regs.ecx.toNat regs.edx.toInt)
  | .sysBrk => pure (kernel.process (Syscall.sysBrk kernel.manager regs.ebx.toNat))
  | .sysGetpid => pure (some (kernel, signed (getPid kernel.manager)))
  | .sysSleep => pure (kernel.process (Syscall.sysSleep kernel.manager regs.ebx.toNat))
  | .sysGettime => pure (some (kernel, signed (getTimeMs kernel.timer)))
  | .sysYield => yield kernel seen
  | .sysSbrk => pure (kernel.process (Syscall.sysSbrk kernel.manager regs.ebx.toInt))
  | .sysKill =>
      pure (some ({ kernel with
        manager := (killProcess kernel.manager regs.ebx.toInt regs.ecx.toInt).1 }, 0))

/-- The calls of `register_syscall` in `init_syscalls`. -/
def registrations : List (Registration Handler) :=
  [⟨0, "exit", .sysExit⟩, ⟨1, "fork", .sysFork⟩, ⟨2, "read", .sysRead⟩, ⟨3, "write", .sysWrite⟩,
    ⟨4, "open", .sysOpen⟩, ⟨5, "close", .sysClose⟩, ⟨6, "execve", .sysExecve⟩,
    ⟨7, "waitpid", .sysWaitpid⟩, ⟨8, "brk", .sysBrk⟩, ⟨9, "getpid", .sysGetpid⟩,
    ⟨10, "sleep", .sysSleep⟩, ⟨11, "gettime", .sysGettime⟩, ⟨12, "yield", .sysYield⟩,
    ⟨13, "sbrk", .sysSbrk⟩, ⟨14, "kill", .sysKill⟩]

/-- The number for which a handler is registered. -/
def Handler.number (handler : Handler) : Nat :=
  (registrations.map Registration.handler).idxOf handler

def initSyscalls : SyscallTable Handler := registerAll .cleared registrations

def syscallHandler (behind : UInt8) (seen : Nat) (kernel : Kernel) (regs : Registers) :
    Port (Option (Kernel × Registers)) :=
  match lookup initSyscalls regs.eax.toNat with
  | none => pure (some (kernel, { regs with eax := -1 }))
  | some handler => do
      let result ← handler.call behind seen kernel regs
      pure (result.map fun (kernel, code) => (kernel, { regs with eax := BitVec.ofInt 32 code }))

/-- One system call after the other, each with registers of its own. -/
def syscalls (behind : UInt8) : Kernel → List SystemCall → Port (Option (Kernel × List Registers))
  | kernel, [] => pure (some (kernel, []))
  | kernel, ⟨regs, seen⟩ :: calls => do
      match ← syscallHandler behind seen kernel regs with
      | none => pure none
      | some (kernel, reply) =>
          let result ← syscalls behind kernel calls
          pure (result.map fun (kernel, replies) => (kernel, reply :: replies))

/-- The first registration for a number is at the place of that number. -/
theorem lookup_initSyscalls (num : Nat) : lookup initSyscalls num =
    (registrations.map Registration.handler)[num]? := by
  have registered : Registered initSyscalls registrations :=
    Registered.cleared.registerAll registrations
  rw [registered.lookup_eq]
  by_cases small : num < 15
  · interval_cases num <;> rfl
  · rw [List.getElem?_eq_none (not_lt.mp small)]
    have absent : firstFor registrations num = none := by
      refine List.find?_eq_none.mpr fun call member same => ?_
      have numbered : ∀ call ∈ registrations, call.num < 15 := by decide
      have bound := numbered call member
      rw [of_decide_eq_true same] at bound
      exact small bound
    rw [absent]
    split <;> rfl

end Helios.Syscall
