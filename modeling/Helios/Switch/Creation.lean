import Helios.Process.Fields
import Helios.Switch.RoundTrip

namespace Helios.Switch

open Helios.Data Helios.Process ProcessManager

/-! The switch fields of a new process.

`create_process` and `fork_process` fill the register fields of the control
block; `switch_process` reads `kernel_esp`, `eflags` and `page_dir_phys`. -/

/-- `switch_process` can start the process: its page directory is the one that
will be loaded, and the six words on its stack are followed by its entry. -/
structure Switchable (store : Store) (pcb : Pcb) : Prop where
  pageDir : pcb.pageDirPhys = pcb.pageDir
  stack : (store.read (BitVec.ofNat 32 pcb.kernelEsp + 24#32)).toNat = pcb.eip

/-- The fields that decide how a process is started. -/
structure SameContext (before after : Pcb) : Prop where
  kernelEsp : after.kernelEsp = before.kernelEsp
  pageDirPhys : after.pageDirPhys = before.pageDirPhys
  pageDir : after.pageDir = before.pageDir
  eip : after.eip = before.eip
  pid : after.pid = before.pid

def Preserves (manager after : ProcessManager) : Prop :=
  ∀ slot, SameContext (manager.processTable slot) (after.processTable slot)

/-- The address at which a created process is to start. -/
def startAddress (manager : ProcessManager) : Call → Nat
  | .createProcess _ entry _ => u32 entry
  | .forkProcess =>
      match manager.currentProcess with
      | none => 0
      | some current =>
          if freeSlot manager = some current then 0 else (manager.processTable current).eip
  | _ => 0

/-- Either no process owns a page directory, or only the idle process does and
it is the one that the next creation overwrites. -/
structure Undirected (manager : ProcessManager) : Prop where
  started : ∃ current, manager.currentProcess = some current
  pageDir : (∀ slot, (manager.processTable slot).pageDir = 0) ∨
    manager.currentProcess = some 0 ∧ manager.pid 0 = 0 ∧ manager.readyQueue = none ∧
      ∀ slot, slot ≠ 0 → (manager.processTable slot).pageDir = 0

section

variable {manager middle after next : ProcessManager} {slot proc : Slot} {change : Pcb → Pcb}
variable {input : Call} {filled : Option Slot} {before later : Pcb} {store : Store}

theorem SameContext.refl : SameContext before before := ⟨rfl, rfl, rfl, rfl, rfl⟩

theorem Preserves.refl : Preserves manager manager := fun _ => .refl

theorem Preserves.trans (first : Preserves manager middle) (second : Preserves middle after) :
    Preserves manager after := by
  intro slot
  obtain ⟨esp, phys, dir, eip, pid⟩ := first slot
  obtain ⟨esp', phys', dir', eip', pid'⟩ := second slot
  exact ⟨esp'.trans esp, phys'.trans phys, dir'.trans dir, eip'.trans eip, pid'.trans pid⟩

theorem update_preserves (kept : ∀ pcb, SameContext pcb (change pcb)) :
    Preserves manager (manager.update slot change) := by
  intro other
  by_cases same : other = slot
  · subst same
    rw [update_same]
    exact kept _
  · rw [update_other same]
    exact .refl

theorem setNext_preserves {link : Option Slot} :
    Preserves manager (manager.update slot (Pcb.setNext link)) :=
  update_preserves fun _ => ⟨rfl, rfl, rfl, rfl, rfl⟩

theorem setState_preserves {state : ProcessState} :
    Preserves manager (manager.update slot (Pcb.setState state)) :=
  update_preserves fun _ => ⟨rfl, rfl, rfl, rfl, rfl⟩

theorem enqueueProcess_preserves (result : enqueueProcess manager proc = some after) :
    Preserves manager after ∧ after.currentProcess = manager.currentProcess := by
  simp only [enqueueProcess] at result
  split at result
  · cases result
    exact ⟨setNext_preserves, rfl⟩
  · split at result
    · cases result
    · cases result
      exact ⟨setNext_preserves.trans setNext_preserves, rfl⟩

theorem dispatch_preserves : Preserves manager (dispatch manager) := by
  have dequeued : Preserves manager (dequeueProcess manager).1 := by
    rw [dequeueProcess]
    split
    · exact .refl
    · exact setNext_preserves
  exact dequeued.trans setState_preserves

theorem schedulerGetNext_preserves (result : schedulerGetNext manager = some after) :
    Preserves manager after ∧ ∃ current, after.currentProcess = some current := by
  obtain ⟨middle, requeuing, dispatched⟩ := Option.map_eq_some_iff.mp result
  subst dispatched
  have kept : Preserves manager middle := by
    simp only [requeueCurrent] at requeuing
    split at requeuing
    · cases requeuing
      exact .refl
    · split at requeuing
      · exact setState_preserves.trans (enqueueProcess_preserves requeuing).1
      · cases requeuing
        exact .refl
  exact ⟨kept.trans dispatch_preserves, _, rfl⟩

/-- With nothing queued, a reschedule runs the process in slot `0` again. -/
theorem schedulerGetNext_idle (current : manager.currentProcess = some 0)
    (empty : manager.readyQueue = none) (result : schedulerGetNext manager = some after) :
    after.currentProcess = some 0 ∧ after.readyQueue = none := by
  by_cases running : manager.state 0 = .running
  · simp [schedulerGetNext, requeueCurrent, current, running, enqueueProcess, empty, dispatch,
      dequeueProcess, link] at result
    subst result
    exact ⟨rfl, rfl⟩
  · simp [schedulerGetNext, requeueCurrent, current, running, empty, dispatch,
      dequeueProcess] at result
    subst result
    exact ⟨rfl, rfl⟩

/-- The control block of a process that a call has just created. -/
structure Fresh (manager : ProcessManager) (input : Call) (parent slot : Slot)
    (next : ProcessManager) : Prop where
  free : freeSlot manager = some slot
  current : next.currentProcess = manager.currentProcess
  others : ∀ other, other ≠ slot →
    SameContext (manager.processTable other) (next.processTable other)
  kernelEsp : (next.processTable slot).kernelEsp = 0
  pageDirPhys : (next.processTable slot).pageDirPhys = 0
  pageDir : (next.processTable slot).pageDir =
    ((clearSlot manager slot).processTable parent).pageDir
  eip : (next.processTable slot).eip = startAddress manager input

theorem fill_context (result : enqueueProcess ((clearSlot manager slot).update slot change) slot =
      some next) :
    next.currentProcess = manager.currentProcess ∧
      (∀ other, other ≠ slot → SameContext (manager.processTable other) (next.processTable other)) ∧
      SameContext (change (emptyPcb manager.nextPid)) (next.processTable slot) := by
  obtain ⟨kept, current⟩ := enqueueProcess_preserves result
  refine ⟨current, fun other different => ?_, ?_⟩
  · have same := kept other
    rw [update_other different, clearSlot, update_other different] at same
    exact same
  · have same := kept slot
    rw [update_same, clearSlot, update_same] at same
    exact same

theorem call_fresh {current : Slot} (found : manager.currentProcess = some current)
    (result : call manager input = some (next, some slot)) :
    Fresh manager input current slot next := by
  obtain ⟨free, pcb, filling, pageDir, enqueued⟩ := call_filled result
  obtain ⟨kept, others, here⟩ := fill_context enqueued
  have itsPageDir := here.pageDir.trans (pageDir current found)
  cases filling with
  | inl created =>
      obtain ⟨name, entry, stackTop, text, dir, shape, same⟩ := created
      subst shape same
      exact ⟨free, kept, others, here.kernelEsp, here.pageDirPhys, itsPageDir, here.eip⟩
  | inr forked =>
      obtain ⟨parent, text, shape, itsParent, same⟩ := forked
      subst shape same
      rw [found, Option.some.injEq] at itsParent
      subst itsParent
      refine ⟨free, kept, others, here.kernelEsp, here.pageDirPhys, itsPageDir, ?_⟩
      rw [here.eip, startAddress]
      simp only [found, free, Option.some.injEq]
      by_cases same : slot = current
      · subst same
        simp [forkPcb, clearSlot, emptyPcb]
      · simp only [forkPcb, same, if_false, clearSlot, update_other (Ne.symm same)]

theorem Undirected.preserved (undirected : Undirected manager) (kept : Preserves manager next)
    (started : ∃ current, next.currentProcess = some current)
    (idle : manager.currentProcess = some 0 → manager.readyQueue = none →
      next.currentProcess = some 0 ∧ next.readyQueue = none) : Undirected next := by
  refine ⟨started, ?_⟩
  cases undirected.pageDir with
  | inl none_owns => exact .inl fun slot => ((kept slot).pageDir).trans (none_owns slot)
  | inr waiting =>
      obtain ⟨current, blank, empty, others⟩ := waiting
      obtain ⟨again, stillEmpty⟩ := idle current empty
      exact .inr ⟨again, ((kept 0).pid).trans blank, stillEmpty,
        fun slot different => ((kept slot).pageDir).trans (others slot different)⟩

theorem Undirected.reschedule (undirected : Undirected manager)
    (result : schedulerGetNext (manager.update slot change) = some next)
    (stopped : ∀ pcb, SameContext pcb (change pcb)) : Undirected next := by
  obtain ⟨kept, started⟩ := schedulerGetNext_preserves result
  exact undirected.preserved ((update_preserves stopped).trans kept) started
    fun current empty => @schedulerGetNext_idle (manager.update slot change) next current empty result

theorem Undirected.parent_pageDir {current : Slot} (undirected : Undirected manager)
    (found : manager.currentProcess = some current) (free : freeSlot manager = some slot) :
    ((clearSlot manager slot).processTable current).pageDir = 0 := by
  by_cases same : current = slot
  · subst same
    simp [clearSlot, emptyPcb]
  · rw [clearSlot, update_other same]
    cases undirected.pageDir with
    | inl none_owns => exact none_owns current
    | inr waiting =>
        obtain ⟨idle, blank, _, _⟩ := waiting
        have zero : freeSlot manager = some 0 := freeSlot_zero (by
          simpa [isFreeSlot] using .inr blank)
        have currentZero : current = 0 := Option.some.inj (found.symm.trans idle)
        exact absurd (currentZero.trans (Option.some.inj (zero.symm.trans free))) same

theorem Undirected.create (undirected : Undirected manager)
    (result : call manager input = some (next, some slot)) : Undirected next := by
  obtain ⟨current, found⟩ := undirected.started
  have fresh := call_fresh found result
  refine ⟨⟨current, fresh.current.trans found⟩, .inl fun other => ?_⟩
  by_cases same : other = slot
  · rw [same, fresh.pageDir]
    exact undirected.parent_pageDir found fresh.free
  · rw [(fresh.others other same).pageDir]
    cases undirected.pageDir with
    | inl none_owns => exact none_owns other
    | inr waiting =>
        obtain ⟨_, blank, _, others⟩ := waiting
        have zero : freeSlot manager = some 0 := freeSlot_zero (by
          simpa [isFreeSlot] using .inr blank)
        exact others other fun isZero =>
          same (isZero.trans (Option.some.inj (zero.symm.trans fresh.free)))

theorem Undirected.call (undirected : Undirected manager)
    (result : Process.call manager input = some (next, filled)) : Undirected next := by
  cases filled with
  | some slot => exact undirected.create result
  | none =>
      cases call_unfilled_cases result with
      | same => exact undirected
      | killed =>
          exact undirected.preserved setState_preserves undirected.started
            fun current empty => ⟨current, empty⟩
      | scheduled scheduled =>
          obtain ⟨kept, started⟩ := schedulerGetNext_preserves scheduled
          exact undirected.preserved kept started
            fun current empty => schedulerGetNext_idle current empty scheduled
      | blocked found scheduled =>
          exact undirected.reschedule scheduled fun _ => ⟨rfl, rfl, rfl, rfl, rfl⟩
      | exited found scheduled =>
          exact undirected.reschedule scheduled fun _ => ⟨rfl, rfl, rfl, rfl, rfl⟩

theorem initProcessManager_undirected (kernelPageDir : Nat) :
    Undirected (initProcessManager kernelPageDir) :=
  ⟨⟨0, rfl⟩, .inr ⟨rfl, rfl, rfl, fun slot different => by simp [initProcessManager, different]⟩⟩

theorem run_undirected {kernelPageDir : Nat} {calls : List Call}
    (reached : run step (initProcessManager kernelPageDir) calls = some manager) :
    Undirected manager := by
  refine run_invariant Undirected (.of_forall fun _ _ _ => trivial)
    (initProcessManager_undirected kernelPageDir) ?_ reached
  intro before input after undirected _ taken
  obtain ⟨⟨next, filled⟩, result, same⟩ := Option.map_eq_some_iff.mp taken
  cases same
  exact undirected.call result

/-- What `Switchable` is for: `switch_process` then loads the page directory of
the process and enters it at its `eip`. -/
theorem Switchable.starts {cpu : Cpu} {address : Word} {pcb : Pcb} (notNull : address ≠ 0)
    (argument : cpu.store.read (cpu.register .esp + 28#32) = address)
    (kernelEsp : cpu.store.read address = BitVec.ofNat 32 pcb.kernelEsp)
    (pageDirPhys : cpu.store.read (address + 8#32) = BitVec.ofNat 32 pcb.pageDirPhys)
    (switchable : Switchable cpu.store pcb) :
    ∃ resumed, loadNew cpu = some resumed ∧ resumed.eip.toNat = pcb.eip ∧
      resumed.cr3 = BitVec.ofNat 32 pcb.pageDir := by
  obtain ⟨resumed, result, resumes⟩ := loadNew_resumes notNull argument kernelEsp
  refine ⟨resumed, result, ?_, ?_⟩
  · rw [resumes.eip]
    exact switchable.stack
  · rw [resumes.cr3, pageDirPhys, switchable.pageDir]

end

/-- No stack is made for a new process: its `kernel_esp` is `NULL`, and
`switch_process` would enter it at its `eip` only if the word at address 24
happened to be that. -/
theorem created_switchable_iff (kernelPageDir : Nat) (calls : List Call)
    (manager next : ProcessManager) (input : Call) (slot : Slot) (store : Store)
    (reached : run step (initProcessManager kernelPageDir) calls = some manager)
    (result : call manager input = some (next, some slot)) :
    Switchable store (next.processTable slot) ↔
      (store.read 24#32).toNat = startAddress manager input := by
  have undirected := run_undirected reached
  obtain ⟨current, found⟩ := undirected.started
  have fresh := call_fresh found result
  have pageDir : (next.processTable slot).pageDir = 0 :=
    fresh.pageDir.trans (undirected.parent_pageDir found fresh.free)
  have stack : BitVec.ofNat 32 (next.processTable slot).kernelEsp + 24#32 = 24#32 := by
    rw [fresh.kernelEsp]
    rfl
  constructor
  · intro switchable
    have word := switchable.stack
    rw [stack, fresh.eip] at word
    exact word
  · intro word
    refine ⟨fresh.pageDirPhys.trans pageDir.symm, ?_⟩
    rw [stack, fresh.eip]
    exact word

theorem created_switchable_iff_second :
    ∃ manager next, run step (initProcessManager 4096)
        [.createProcess [97] 4096 8192, .schedulerGetNext] = some manager ∧
      call manager (.createProcess [98] 8192 0) = some (next, some 1) ∧
      (Switchable (fun _ => 0) (next.processTable 1) ↔ (0 : Nat) = 8192) := by
  refine ⟨_, _, rfl, rfl, ?_⟩
  exact created_switchable_iff 4096 [.createProcess [97] 4096 8192, .schedulerGetNext] _ _
    (.createProcess [98] 8192 0) 1 (fun _ => 0) rfl rfl

/-- The shell, with a zeroed page at address 0. -/
theorem shell_not_switchable :
    ∃ next, call (initProcessManager 4096)
        (.createProcess [115, 104, 101, 108, 108] 0x400000 0) = some (next, some 0) ∧
      ¬ Switchable (fun _ => 0) (next.processTable 0) := by
  refine ⟨_, rfl, fun switchable => ?_⟩
  exact absurd switchable.stack (by decide)

end Helios.Switch
