import Helios.Fs.Model
import Helios.Process.Fields

namespace Helios.Syscall

open Helios.Data Helios.Process Helios.Strings ProcessManager

/-! The system calls of `syscall.c` on the current process.

A call returns `none` where the source follows a `NULL` `current_process`, or
does not return.  A pointer argument that is only tested and written through is
a `Bool`, false for `NULL`, and what is written there is part of the result. -/

/-- A word returned as an `int32_t`. -/
def signed (word : Nat) : Int := if word < 0x80000000 then word else (word : Int) - 4294967296

def descriptor (pcb : Pcb) (index : Nat) : Int := pcb.fd.getD index 0

def setDescriptor (index : Nat) (value : Int) (pcb : Pcb) : Pcb :=
  { pcb with fd := pcb.fd.set index value }

/-- The slots from `3` on whose entry is `-1`, in the order of the loops. -/
def unusedSlots (pcb : Pcb) : List Nat :=
  (List.range' 3 13).filter fun index => descriptor pcb index = -1

def sysOpen (path : CString) (_flags _mode : Int) : Int :=
  if strcmp path.val Fs.devTty = 0 ∨ strcmp path.val Fs.devConsole = 0 then 0
  else if strcmp path.val Fs.devStdout = 0 then 1
  else if strcmp path.val Fs.devStderr = 0 then 2
  else -1

def sysClose (manager : ProcessManager) (fd : Int) : Option (ProcessManager × Int) :=
  if fd < 0 ∨ 16 ≤ fd then some (manager, -1)
  else
    match manager.currentProcess with
    | none => none
    | some proc => some (manager.update proc (setDescriptor fd.toNat (-1)), 0)

def sysDup (manager : ProcessManager) (oldfd : Int) : Option (ProcessManager × Int) :=
  if oldfd < 0 ∨ 16 ≤ oldfd then some (manager, -1)
  else
    match manager.currentProcess with
    | none => none
    | some proc =>
        let pcb := manager.processTable proc
        if descriptor pcb oldfd.toNat = -1 then some (manager, -1)
        else
          match unusedSlots pcb with
          | [] => some (manager, -1)
          | index :: _ =>
              some (manager.update proc (setDescriptor index (descriptor pcb oldfd.toNat)), index)

/-- `sys_pipe`, with the descriptors that it writes to `pipefd`. -/
def sysPipe (manager : ProcessManager) (pipefd : Bool) :
    Option (ProcessManager × Int × Option (Nat × Nat)) :=
  match manager.currentProcess with
  | none => none
  | some proc =>
      match unusedSlots (manager.processTable proc) with
      | fd1 :: fd2 :: _ =>
          some (manager.update proc (setDescriptor fd2 101 ∘ setDescriptor fd1 100), 0,
            if pipefd then some (fd1, fd2) else none)
      | _ => some (manager, -1, none)

def sysBrk (manager : ProcessManager) (addr : Nat) : Option (ProcessManager × Int) :=
  match manager.currentProcess with
  | none => none
  | some proc =>
      if addr = 0 then some (manager, signed (manager.processTable proc).brk)
      else some (manager.update proc fun pcb => { pcb with brk := u32 addr }, 0)

/-- `proc->brk += increment`. -/
def moveBreak (brk : Nat) (increment : Int) : Nat := ((brk + increment) % 4294967296).toNat

def sysSbrk (manager : ProcessManager) (increment : Int) : Option (ProcessManager × Int) :=
  match manager.currentProcess with
  | none => none
  | some proc =>
      some (manager.update proc fun pcb => { pcb with brk := moveBreak pcb.brk increment },
        signed (manager.processTable proc).brk)

/-- `sys_waitpid`, with what it writes to `status`. -/
def sysWaitpid (manager : ProcessManager) (pid : Int) (status : Bool) (_options : Int) :
    Option (ProcessManager × Int × Option Int) :=
  (waitProcess manager pid).map (·, pid, if status then some 0 else none)

inductive Operation where
  | process (input : Call)
  | open (path : CString) (flags mode : Int)
  | close (fd : Int)
  | dup (oldfd : Int)
  | pipe (pipefd : Bool)
  | brk (addr : Nat)
  | sbrk (increment : Int)
  | waitpid (pid : Int) (status : Bool) (options : Int)

/-- What a call hands back. -/
inductive Reply where
  | filled (slot : Option Slot)
  | code (code : Int)
  | pipe (code : Int) (descriptors : Option (Nat × Nat))
  | waited (code : Int) (status : Option Int)

def handle (manager : ProcessManager) : Operation → Option (ProcessManager × Reply)
  | .process input => (call manager input).map fun (next, filled) => (next, .filled filled)
  | .open path flags mode => some (manager, .code (sysOpen path flags mode))
  | .close fd => (sysClose manager fd).map fun (next, code) => (next, .code code)
  | .dup oldfd => (sysDup manager oldfd).map fun (next, code) => (next, .code code)
  | .pipe pipefd => (sysPipe manager pipefd).map fun (next, code, written) => (next, .pipe code written)
  | .brk addr => (sysBrk manager addr).map fun (next, code) => (next, .code code)
  | .sbrk increment => (sysSbrk manager increment).map fun (next, code) => (next, .code code)
  | .waitpid pid status options =>
      (sysWaitpid manager pid status options).map fun (next, code, written) =>
        (next, .waited code written)

def step (manager : ProcessManager) (input : Operation) : Option ProcessManager :=
  (handle manager input).map Prod.fst

end Helios.Syscall
