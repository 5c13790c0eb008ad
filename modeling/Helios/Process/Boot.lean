import Helios.Process.Enqueue
import Helios.Process.Runs

namespace Helios.Process

open Helios.Data ProcessManager

/-! The processes as `kernel_main` leaves them.

The shell gets the slot of the idle process, which is current, and it is put
into the ready queue twice. -/

/-- The bytes of `"shell"`. -/
def shellName : List UInt8 := [115, 104, 101, 108, 108]

/-- `kernel_main` from `init_process_manager` on.  It calls `create_process`
without the stack. -/
def bootProcesses (kernelPageDir stackTop : Nat) : Option ProcessManager :=
  (createProcess (initProcessManager kernelPageDir) shellName 0x400000 stackTop).bind
    fun (manager, shellProc) => addToReadyQueue manager shellProc

/-- The control block of the shell; the page directory is read from the cleared
slot. -/
def shellPcb (stackTop : Nat) : Pcb := createPcb shellName 0x400000 stackTop 0 (emptyPcb 1)

theorem bootProcesses_eq (kernelPageDir stackTop : Nat) : bootProcesses kernelPageDir stackTop =
    some { processTable := Function.update (fun _ => {}) 0 ((shellPcb stackTop).setNext (some 0))
           currentProcess := some 0, nextPid := 2, readyQueue := some 0, kernelPageDir } := by
  refine congrArg some ?_
  simp [ProcessManager.update, clearSlot, initProcessManager]
  exact ⟨rfl, rfl⟩

/-- The shell is current, and the ready queue goes round and round in it. -/
structure Looped (manager : ProcessManager) : Prop where
  current : manager.currentProcess = some 0
  ready : manager.state 0 = .ready
  first : manager.readyQueue = some 0
  loop : manager.link 0 = some 0
  numbered : manager.pid 0 ≠ 0
  named : ∀ slot, (copyName (manager.processTable slot).name).isSome

/-- The shell runs, and is also at the head of the ready queue. -/
structure Shelled (manager : ProcessManager) (rest : List Slot) : Prop where
  current : manager.currentProcess = some 0
  running : manager.state 0 = .running
  chain : Chain manager.link manager.readyQueue (0 :: rest)
  numbered : ∀ slot ∈ 0 :: rest, manager.pid slot ≠ 0
  alive : ∀ slot ∈ 0 :: rest, manager.state slot ≠ .terminated
  named : ∀ slot, (copyName (manager.processTable slot).name).isSome

section

variable {manager next final : ProcessManager} {rest : List Slot} {input : Call}
variable {filled : Option Slot} {calls : List Call}

theorem named_update {slot : Slot} {change : Pcb → Pcb}
    (named : ∀ other, (copyName (manager.processTable other).name).isSome)
    (kept : ∀ pcb, (change pcb).name = pcb.name) (other : Slot) :
    (copyName ((manager.update slot change).processTable other).name).isSome := by
  by_cases same : other = slot
  · rw [same, update_same, kept]
    exact named slot
  · rw [update_other same]
    exact named other

theorem boot_looped {kernelPageDir stackTop : Nat}
    (booted : bootProcesses kernelPageDir stackTop = some manager) : Looped manager := by
  rw [bootProcesses_eq] at booted
  obtain rfl := Option.some.inj booted
  refine ⟨rfl, rfl, rfl, rfl, Nat.one_ne_zero, fun slot => ?_⟩
  by_cases shell : slot = 0
  · rw [shell]
    rfl
  · simp [Function.update_of_ne shell, copyName]

theorem boot_filled {kernelPageDir stackTop : Nat}
    (booted : bootProcesses kernelPageDir stackTop = some manager) : Filled manager := by
  rw [bootProcesses_eq] at booted
  obtain rfl := Option.some.inj booted
  refine ⟨fun slot named => ?_, rfl⟩
  by_cases shell : slot = 0
  · rw [shell]
    exact ProcessState.noConfusion
  · refine absurd ?_ named
    simp [ProcessManager.pid, Function.update_of_ne shell]

theorem boot_start {kernelPageDir stackTop : Nat}
    (booted : bootProcesses kernelPageDir stackTop = some manager) :
    manager.nextPid = 2 ∧ freeSlot manager = some 1 := by
  rw [bootProcesses_eq] at booted
  obtain rfl := Option.some.inj booted
  exact ⟨rfl, rfl⟩

theorem chainEnd_loop {α : Type*} {next : α → Option α} {item : α} (loop : next item = some item)
    (steps : Nat) : chainEnd next steps item = none := by
  induction steps with
  | zero => rfl
  | succ steps ih =>
      rw [chainEnd, loop]
      exact ih

theorem enqueue_loop {proc : Slot} (first : manager.readyQueue = some 0)
    (loop : manager.link 0 = some 0) (other : proc ≠ 0) : enqueueProcess manager proc = none := by
  have walk : chainEnd (manager.update proc (Pcb.setNext none)).link 64 0 = none :=
    chainEnd_loop ((link_update_other other.symm).trans loop) 64
  simp only [enqueueProcess, update_readyQueue, first, walk]

/-- Nothing can be put behind a queue that goes round. -/
theorem Looped.creation (looped : Looped manager) (creates : input.creates = true)
    (room : freeSlot manager ≠ none) : call manager input = none := by
  obtain ⟨slot, free⟩ := Option.ne_none_iff_exists'.mp room
  have other : slot ≠ 0 := by
    rintro rfl
    have unused := freeSlot_free free
    simp [isFreeSlot] at unused
    rcases unused with terminated | zero
    · exact absurd (looped.ready.symm.trans terminated) (by decide)
    · exact looped.numbered zero
  have stuck : ∀ pcb : Pcb, enqueueProcess ((clearSlot manager slot).update slot fun _ => pcb) slot =
      none := by
    intro pcb
    refine enqueue_loop looped.first ?_ other
    rw [link_update_other other.symm]
    exact (link_update_other other.symm).trans looped.loop
  cases input with
  | createProcess name entry stackTop =>
      simp only [call, createProcess, createProcessEmpty, free, Option.map_some]
      cases copyName name with
      | none => rfl
      | some text =>
          simp only [clearSlot_update, stuck]
          rfl
  | forkProcess =>
      simp only [call, forkProcess, createProcessEmpty, free, Option.map_some, looped.current]
      cases copyName ((clearSlot manager slot).processTable 0).name with
      | none => rfl
      | some text =>
          simp only [clearSlot_update, stuck]
          rfl
  | _ => cases creates

/-- The head of a queue that goes round in it is dispatched and stays there. -/
theorem dispatch_loop (first : manager.readyQueue = some 0) (loop : manager.link 0 = some 0) :
    dispatch manager =
      { manager.update 0 fun pcb => (pcb.setNext none).setState .running with
        currentProcess := some 0 } := by
  simp [dispatch, dequeueProcess, first, loop, ProcessManager.update]

/-- A reschedule leaves nobody but the shell in the queue. -/
theorem dispatch_shelled (first : manager.readyQueue = some 0) (loop : manager.link 0 = some 0)
    (numbered : manager.pid 0 ≠ 0)
    (named : ∀ slot, (copyName (manager.processTable slot).name).isSome) :
    Shelled (dispatch manager) [] := by
  rw [dispatch_loop first loop]
  refine ⟨rfl, by simp [ProcessManager.state], ⟨first, ?_⟩, ?_, ?_, ?_⟩
  · show (ProcessManager.link _ 0) = none
    simp [link]
  · simpa [ProcessManager.pid] using numbered
  · simp [ProcessManager.state]
  · have kept := @named_update manager 0 (fun pcb => (pcb.setNext none).setState .running) named
      fun _ => rfl
    exact kept

theorem dispatch_filled (first : manager.readyQueue = some 0) (loop : manager.link 0 = some 0)
    (filled : Filled manager) : Filled (dispatch manager) := by
  rw [dispatch_loop first loop]
  have kept := @Filled.update manager 0 (fun pcb => (pcb.setNext none).setState .running) filled
    (fun _ => rfl) fun _ => ProcessState.noConfusion
  exact kept.keep (fun _ => rfl) rfl fun _ alive => alive

theorem Looped.reschedule (looped : Looped manager) :
    schedulerGetNext manager = some (dispatch manager) ∧ Shelled (dispatch manager) [] := by
  have idle : requeueCurrent manager = some manager := by
    simp [requeueCurrent, looped.current, looped.ready]
  exact ⟨by rw [schedulerGetNext, idle]; rfl,
    dispatch_shelled looped.first looped.loop looped.numbered looped.named⟩

/-- The running shell is put behind the first process of the queue: itself. -/
theorem Shelled.requeue (shelled : Shelled manager rest) : requeueCurrent manager =
    some (manager.update 0 fun pcb => (pcb.setState .ready).setNext (some 0)) := by
  have first : manager.readyQueue = some 0 := shelled.chain.1
  simp [requeueCurrent, shelled.current, shelled.running, enqueueProcess, first, chainEnd, link,
    ProcessManager.update]
  rfl

theorem Shelled.reschedule (shelled : Shelled manager rest) :
    ∃ next, schedulerGetNext manager = some next ∧ Shelled next [] := by
  refine ⟨_, congrArg (Option.map dispatch) shelled.requeue,
    dispatch_shelled shelled.chain.1 ?_ ?_ (named_update shelled.named fun _ => rfl)⟩
  · simp [link]
  · simpa [ProcessManager.pid] using shelled.numbered 0 List.mem_cons_self

theorem Shelled.absent (shelled : Shelled manager rest) {slot : Slot}
    (free : freeSlot manager = some slot) : slot ∉ 0 :: rest := by
  intro member
  have unused := freeSlot_free free
  simp only [isFreeSlot, Bool.or_eq_true, decide_eq_true_eq] at unused
  exact unused.elim (shelled.alive slot member) (shelled.numbered slot member)

/-- A creation finds the table full, or puts a new process at the end, behind
the running shell. -/
theorem Shelled.creates (shelled : Shelled manager rest) (creates : input.creates = true)
    (result : call manager input = some (next, filled)) :
    next = manager ∧ filled = none ∨
      ∃ slot pcb, freeSlot manager = some slot ∧ pcb.pid = manager.nextPid ∧ pcb.state = .ready ∧
        pcb.next = none ∧ (copyName pcb.name).isSome ∧ filled = some slot ∧
        next = placed manager (0 :: rest) slot pcb := by
  rcases creation_cases shelled.chain ⟨0, shelled.current⟩ shelled.named
      (fun slot => shelled.absent) creates with
    ⟨stuck, _⟩ | ⟨_, full⟩ | ⟨slot, pcb, free, pid, ready, ended, named, placement⟩
  · rw [stuck] at result
    cases result
  · obtain ⟨rfl, rfl⟩ := Prod.ext_iff.mp (Option.some.inj (full.symm.trans result))
    exact .inl ⟨rfl, rfl⟩
  · obtain ⟨rfl, rfl⟩ := Prod.ext_iff.mp (Option.some.inj (placement.symm.trans result))
    exact .inr ⟨slot, pcb, free, pid, ready, ended, named, rfl, rfl⟩

theorem Shelled.creation (shelled : Shelled manager rest) (creates : input.creates = true)
    (counted : filled.isSome → manager.nextPid ≠ 0)
    (result : call manager input = some (next, filled)) :
    Shelled next (rest ++ filled.toList) := by
  rcases shelled.creates creates result with
    ⟨rfl, rfl⟩ | ⟨slot, pcb, free, pid, ready, ended, named, rfl, rfl⟩
  · rwa [Option.toList_none, List.append_nil]
  · have fresh := shelled.absent free
    have shell : (0 : Slot) ≠ slot := fun same => fresh (same ▸ List.mem_cons_self)
    refine ⟨shelled.current, ?_, placed_chain shelled.chain fresh, ?_, ?_, ?_⟩
    · exact (placed_state_other shell).trans shelled.running
    · intro other member
      by_cases same : other = slot
      · rw [same, ProcessManager.pid, placed_same ended, pid]
        exact counted rfl
      · rw [placed_pid_other same]
        refine shelled.numbered other ?_
        simpa [same] using member
    · intro other member
      by_cases same : other = slot
      · rw [same, ProcessManager.state, placed_same ended, ready]
        decide
      · rw [placed_state_other same]
        refine shelled.alive other ?_
        simpa [same] using member
    · intro other
      by_cases same : other = slot
      · rw [same, placed_same ended]
        exact named
      · rw [placed_other same]
        split
        case isTrue => exact shelled.named other
        case isFalse => exact shelled.named other

theorem Shelled.filled_creation (shelled : Shelled manager rest) (kept : Filled manager)
    (creates : input.creates = true) (result : call manager input = some (next, filled)) :
    manager.nextPid ≠ 0 ∧ Filled next := by
  refine ⟨by rw [kept.counted]; omega, ?_⟩
  rcases shelled.creates creates result with
    ⟨rfl, rfl⟩ | ⟨slot, pcb, free, pid, ready, ended, _, rfl, rfl⟩
  · exact kept
  · exact (kept.place free pid (by simp [ready]) ended).2

theorem Shelled.filled_reschedule (shelled : Shelled manager rest) (kept : Filled manager)
    (scheduled : schedulerGetNext manager = some next) : Filled next := by
  rw [schedulerGetNext, shelled.requeue] at scheduled
  obtain rfl := Option.some.inj scheduled
  refine dispatch_filled shelled.chain.1 (by simp [link]) ?_
  exact kept.update (fun _ => rfl) fun _ => ProcessState.noConfusion

/-- The shell is the current process, and alone in the queue right after a
reschedule; until the first one nothing can be created. -/
structure OnlyShell (manager : ProcessManager) (calls : List Call) : Prop where
  current : manager.currentProcess = some 0
  stuck : calls = [] → ∀ input, input.creates = true → call manager input = none
  alone : calls.getLast? = some .schedulerGetNext → Chain manager.link manager.readyQueue [0]

/-- A run from a state in which the shell is in the queue and current. -/
theorem Shelled.run (shelled : Shelled manager rest) (kept : Filled manager)
    (only : ∀ input ∈ calls, input.creates = true ∨ input = .schedulerGetNext)
    (reached : run step manager calls = some final) :
    ∃ more, Shelled final more ∧ (calls = [] → more = rest) ∧
      (calls.getLast? = some .schedulerGetNext → more = []) := by
  induction calls generalizing manager rest with
  | nil =>
      obtain rfl := Option.some.inj reached
      exact ⟨rest, shelled, fun _ => rfl, nofun⟩
  | cons input calls ih =>
      obtain ⟨next, taken, later⟩ := run_cons_eq_some.mp reached
      obtain ⟨⟨after, filled⟩, result, rfl⟩ := Option.map_eq_some_iff.mp taken
      have stepped : Filled after ∧ ∃ more, Shelled after more ∧
          (input = .schedulerGetNext → more = []) := by
        rcases only input List.mem_cons_self with creates | rfl
        · obtain ⟨counted, grown⟩ := shelled.filled_creation kept creates result
          exact ⟨grown, _, shelled.creation creates (fun _ => counted) result,
            fun same => by rw [same] at creates; cases creates⟩
        · obtain ⟨chosen, scheduled, alone⟩ := shelled.reschedule
          have same : call manager .schedulerGetNext = some (chosen, none) :=
            congrArg (Option.map (·, none)) scheduled
          obtain ⟨rfl, -⟩ := Prod.ext_iff.mp (Option.some.inj (same.symm.trans result))
          exact ⟨shelled.filled_reschedule kept scheduled, [], alone, fun _ => rfl⟩
      obtain ⟨grown, middle, shelled, emptied⟩ := stepped
      obtain ⟨more, final, unchanged, last⟩ :=
        ih shelled grown (fun other member => only other (List.mem_cons_of_mem _ member)) later
      refine ⟨more, final, nofun, fun ending => ?_⟩
      cases calls with
      | nil => rw [unchanged rfl, emptied (Option.some.inj ending)]
      | cons following calls => exact last (by rwa [List.getLast?_cons_cons] at ending)

end

/-- After the boot sequence of `kernel_main` no creation returns until something
has rescheduled, and however processes are created and rescheduled after that,
the shell stays the current process: each reschedule throws everybody else out
of the ready queue. -/
theorem shell_keeps_processor (kernelPageDir stackTop : Nat) :
    ∃ booted, bootProcesses kernelPageDir stackTop = some booted ∧
      ∀ calls, (∀ input ∈ calls, input.creates = true ∨ input = .schedulerGetNext) →
        ∀ final, run step booted calls = some final → OnlyShell final calls := by
  obtain ⟨booted, boots⟩ : ∃ booted, bootProcesses kernelPageDir stackTop = some booted :=
    ⟨_, bootProcesses_eq kernelPageDir stackTop⟩
  have room := (boot_start boots).2
  have looped := boot_looped boots
  refine ⟨booted, boots, fun calls only final reached => ?_⟩
  have stuck : ∀ input, input.creates = true → call booted input = none :=
    fun input creates => looped.creation creates (by simp [room])
  cases calls with
  | nil =>
      obtain rfl := Option.some.inj reached
      exact ⟨looped.current, fun _ => stuck, fun ending => absurd ending (by simp)⟩
  | cons input calls =>
      obtain ⟨next, taken, later⟩ := run_cons_eq_some.mp reached
      rcases only input List.mem_cons_self with creates | rfl
      · rw [step, stuck input creates] at taken
        cases taken
      · obtain ⟨scheduled, kept⟩ := looped.reschedule
        have same : step booted .schedulerGetNext = some (dispatch booted) := by
          rw [step, call, scheduled]
          rfl
        obtain rfl : dispatch booted = next := Option.some.inj (same.symm.trans taken)
        have filled := dispatch_filled looped.first looped.loop (boot_filled boots)
        obtain ⟨more, shelled, unchanged, last⟩ := kept.run filled
          (fun other member => only other (List.mem_cons_of_mem _ member)) later
        refine ⟨shelled.current, fun none => absurd none (List.cons_ne_nil _ _), fun ending => ?_⟩
        have alone : more = [] := by
          cases calls with
          | nil => exact unchanged rfl
          | cons following calls => exact last (by rwa [List.getLast?_cons_cons] at ending)
        exact alone ▸ shelled.chain

end Helios.Process
