import Helios.Data.Chain
import Helios.Data.Memory
import Helios.Data.Run

namespace Helios.Process

open Helios.Data

/-! The process table and the ready queue of `process.c`.

Every `pcb_t *` of the file is `NULL` or points into `process_table`, so a
pointer is an optional slot.  A function returns `none` where the source does
not return: `enqueue_process` walking a cyclic queue, a copy that overruns
`name`, or an access through a `NULL` `current_process`. -/

inductive ProcessState where
  | new
  | ready
  | running
  | blocked
  | terminated
deriving Repr, DecidableEq

abbrev Slot := Fin 64

instance slot_neZero : NeZero 64 := ⟨by decide⟩

/-- `pcb_t`; the field defaults are the bytes that `memset` leaves. -/
structure Pcb where
  kernelEsp : Nat := 0
  eflags : Nat := 0
  pageDirPhys : Nat := 0
  pid : Nat := 0
  name : List UInt8 := []
  state : ProcessState := .new
  eax : Nat := 0
  ebx : Nat := 0
  ecx : Nat := 0
  edx : Nat := 0
  esi : Nat := 0
  edi : Nat := 0
  ebp : Nat := 0
  esp : Nat := 0
  eip : Nat := 0
  cs : Nat := 0
  ds : Nat := 0
  es : Nat := 0
  fs : Nat := 0
  gs : Nat := 0
  ss : Nat := 0
  pageDir : Nat := 0
  brk : Nat := 0
  fd : List Int := List.replicate 16 0
  parent : Option Slot := none
  children : Option Slot := none
  sibling : Option Slot := none
  next : Option Slot := none
  timeSlice : Nat := 0
  sleepUntil : Nat := 0
  exitCode : Int := 0
deriving Repr

def Pcb.setNext (next : Option Slot) (pcb : Pcb) : Pcb := { pcb with next }

def Pcb.setState (state : ProcessState) (pcb : Pcb) : Pcb := { pcb with state }

/-- The static variables of `process.c`, and the address of `kernel_page_dir`. -/
structure ProcessManager where
  processTable : Slot → Pcb
  currentProcess : Option Slot
  nextPid : Nat
  readyQueue : Option Slot
  kernelPageDir : Nat

namespace ProcessManager

def update (manager : ProcessManager) (slot : Slot) (change : Pcb → Pcb) : ProcessManager :=
  { manager with
    processTable := Function.update manager.processTable slot (change (manager.processTable slot)) }

def state (manager : ProcessManager) (slot : Slot) : ProcessState :=
  (manager.processTable slot).state

def pid (manager : ProcessManager) (slot : Slot) : Nat := (manager.processTable slot).pid

def link (manager : ProcessManager) (slot : Slot) : Option Slot :=
  (manager.processTable slot).next

end ProcessManager

open ProcessManager

/-- `enqueue_process`.  A queue that ends does so within 64 hops. -/
def enqueueProcess (manager : ProcessManager) (proc : Slot) : Option ProcessManager :=
  let manager := manager.update proc (Pcb.setNext none)
  match manager.readyQueue with
  | none => some { manager with readyQueue := some proc }
  | some head =>
      match chainEnd manager.link 64 head with
      | none => none
      | some tail => some (manager.update tail (Pcb.setNext (some proc)))

def dequeueProcess (manager : ProcessManager) : ProcessManager × Option Slot :=
  match manager.readyQueue with
  | none => (manager, none)
  | some head =>
      ({ manager with readyQueue := manager.link head }.update head (Pcb.setNext none), some head)

/-- The first part of `scheduler_get_next`. -/
def requeueCurrent (manager : ProcessManager) : Option ProcessManager :=
  match manager.currentProcess with
  | none => some manager
  | some current =>
      if manager.state current = .running then
        enqueueProcess (manager.update current (Pcb.setState .ready)) current
      else some manager

/-- The second part of `scheduler_get_next`. -/
def dispatch (manager : ProcessManager) : ProcessManager :=
  let (manager, next) := dequeueProcess manager
  let next := next.getD 0
  { manager.update next (Pcb.setState .running) with currentProcess := some next }

/-- `scheduler_get_next`; the process it returns is the new current process. -/
def schedulerGetNext (manager : ProcessManager) : Option ProcessManager :=
  (requeueCurrent manager).map dispatch

/-- The bytes of `"idle"`. -/
def idleName : List UInt8 := [105, 100, 108, 101]

def initProcessManager (kernelPageDir : Nat) : ProcessManager where
  processTable := Function.update (fun _ => {}) 0
    { pid := 0, name := idleName, state := .running, pageDir := kernelPageDir, brk := 0x100000,
      timeSlice := 10, fd := List.replicate 16 (-1) }
  currentProcess := some 0
  nextPid := 1
  readyQueue := none
  kernelPageDir := kernelPageDir

/-- The test by which `create_process_empty` takes a slot. -/
def isFreeSlot (pcb : Pcb) : Bool := pcb.state = .terminated || pcb.pid = 0

def freeSlot (manager : ProcessManager) : Option Slot :=
  (List.finRange 64).find? fun slot => isFreeSlot (manager.processTable slot)

/-- The control block that `create_process_empty` returns. -/
def emptyPcb (pid : Nat) : Pcb :=
  { pid, state := .new, timeSlice := 10, fd := List.replicate 16 (-1) }

/-- The writes of `create_process_empty` once it has found a slot. -/
def clearSlot (manager : ProcessManager) (slot : Slot) : ProcessManager :=
  { manager with nextPid := u32 (manager.nextPid + 1) }.update slot
    fun _ => emptyPcb manager.nextPid

def createProcessEmpty (manager : ProcessManager) : Option (ProcessManager × Slot) :=
  (freeSlot manager).map fun slot => (clearSlot manager slot, slot)

/-- `strcpy` into the 32 bytes of `name`; a longer string overruns the field. -/
def copyName (name : List UInt8) : Option (List UInt8) :=
  let text := name.takeWhile (· ≠ 0)
  if text.length < 32 then some text else none

/-- The assignments of `fork_process` to the child. -/
def forkPcb (parent : Pcb) (current : Slot) (name : List UInt8) (child : Pcb) : Pcb :=
  { child with
    name
    parent := some current
    pageDir := parent.pageDir
    brk := parent.brk
    fd := parent.fd
    eip := parent.eip
    esp := parent.esp
    ebp := parent.ebp
    eax := 0
    ecx := parent.ecx
    edx := parent.edx
    ebx := parent.ebx
    esi := parent.esi
    edi := parent.edi
    eflags := parent.eflags
    cs := parent.cs
    ds := parent.ds
    es := parent.es
    fs := parent.fs
    gs := parent.gs
    ss := parent.ss
    state := .ready }

/-- `fork_process`; the second component is the returned child.  The parent is
read after the child's slot has been cleared, which matters when they coincide. -/
def forkProcess (manager : ProcessManager) : Option (ProcessManager × Option Slot) :=
  match manager.currentProcess with
  | none => some (manager, none)
  | some current =>
      match createProcessEmpty manager with
      | none => some (manager, none)
      | some (manager, child) =>
          let parent := manager.processTable current
          match copyName parent.name with
          | none => none
          | some name =>
              (enqueueProcess (manager.update child (forkPcb parent current name)) child).map
                (·, some child)

def exitProcess (manager : ProcessManager) (exitCode : Int) : Option ProcessManager :=
  match manager.currentProcess with
  | none => some manager
  | some current =>
      schedulerGetNext (manager.update current fun pcb => { pcb with exitCode, state := .terminated })

/-- The common body of `wait_process` and `sleep_process`. -/
def blockCurrent (manager : ProcessManager) : Option ProcessManager :=
  match manager.currentProcess with
  | none => none
  | some current =>
      schedulerGetNext (manager.update current (Pcb.setState .blocked))

def waitProcess (manager : ProcessManager) (_pid : Int) : Option ProcessManager :=
  blockCurrent manager

def sleepProcess (manager : ProcessManager) (_ms : Nat) : Option ProcessManager :=
  blockCurrent manager

/-- The slot `kill_process` finds; `pid` is compared as an unsigned number. -/
def killSlot (manager : ProcessManager) (pid : Int) : Option Slot :=
  (List.finRange 64).find? fun slot =>
    (manager.pid slot : Int) = pid % 4294967296 && manager.state slot ≠ .terminated

def killProcess (manager : ProcessManager) (pid _sig : Int) : ProcessManager × Int :=
  match killSlot manager pid with
  | none => (manager, -1)
  | some slot => (manager.update slot (Pcb.setState .terminated), 0)

/-- The assignments of `create_process` to the new process. -/
def createPcb (name : List UInt8) (entry stackTop pageDir : Nat) (pcb : Pcb) : Pcb :=
  { pcb with
    name
    eip := u32 entry
    esp := u32 stackTop
    ebp := 0
    pageDir
    brk := 0x100000
    state := .ready }

def createProcess (manager : ProcessManager) (name : List UInt8) (entry stackTop : Nat) :
    Option (ProcessManager × Option Slot) :=
  match createProcessEmpty manager with
  | none => some (manager, none)
  | some (manager, slot) =>
      match copyName name with
      | none => none
      | some name =>
          let pageDir :=
            match manager.currentProcess with
            | none => manager.kernelPageDir
            | some current => (manager.processTable current).pageDir
          (enqueueProcess (manager.update slot (createPcb name entry stackTop pageDir)) slot).map
            (·, some slot)

inductive Call where
  | createProcess (name : List UInt8) (entry stackTop : Nat)
  | forkProcess
  | exitProcess (exitCode : Int)
  | waitProcess (pid : Int)
  | sleepProcess (ms : Nat)
  | killProcess (pid sig : Int)
  | schedulerGetNext

/-- One call, with the slot that it filled. -/
def call (manager : ProcessManager) : Call → Option (ProcessManager × Option Slot)
  | .createProcess name entry stackTop => createProcess manager name entry stackTop
  | .forkProcess => forkProcess manager
  | .exitProcess exitCode => (exitProcess manager exitCode).map (·, none)
  | .waitProcess pid => (waitProcess manager pid).map (·, none)
  | .sleepProcess ms => (sleepProcess manager ms).map (·, none)
  | .killProcess pid sig => some ((killProcess manager pid sig).1, none)
  | .schedulerGetNext => (schedulerGetNext manager).map (·, none)

def step (manager : ProcessManager) (input : Call) : Option ProcessManager :=
  (call manager input).map Prod.fst

/-- The number of slots that the calls of a run fill. -/
def creations (manager : ProcessManager) : List Call → Nat
  | [] => 0
  | input :: rest =>
      match call manager input with
      | none => 0
      | some (next, filled) => (if filled.isSome then 1 else 0) + creations next rest

end Helios.Process
