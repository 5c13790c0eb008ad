import Helios.Syscall.Runs

namespace Helios.Syscall

open Helios.Data Helios.Process ProcessManager

/-! Waiting for a child. -/

/-- A process that the current process has forked. -/
structure Child (manager : ProcessManager) (child : Slot) (pid : Int) : Prop where
  parent : (manager.processTable child).parent = manager.currentProcess
  number : (manager.pid child : Int) = pid % 4294967296

/-- When `sys_waitpid` returns the child's number, the child has exited, with the
status that is reported. -/
def ReportsExit (manager : ProcessManager) (child : Slot) (pid options : Int) : Prop :=
  ∀ next code status, sysWaitpid manager pid true options = some (next, code, status) → code = pid →
    next.state child = .terminated ∧ status = some (next.processTable child).exitCode

/-- The child has exited with `0` before the call, and is not the process that is
chosen to run. -/
structure ExitedBefore (manager : ProcessManager) (child : Slot) : Prop where
  exited : manager.state child = .terminated
  zero : (manager.processTable child).exitCode = 0
  other : manager.currentProcess ≠ some child
  unchosen : manager.readyQueue.getD 0 ≠ child

section

variable {manager : ProcessManager} {current child : Slot} {pid options : Int}

/-- The call chooses another process and returns at once, with status `0`. -/
theorem sysWaitpid_eq (found : manager.currentProcess = some current) :
    sysWaitpid manager pid true options =
      some (dispatch (manager.update current (Pcb.setState .blocked)), pid, some 0) := by
  rw [sysWaitpid, waitProcess, blockCurrent_eq found]
  rfl

theorem reportsExit_iff (found : manager.currentProcess = some current) :
    ReportsExit manager child pid options ↔
      (dispatch (manager.update current (Pcb.setState .blocked))).state child = .terminated ∧
        (manager.processTable child).exitCode = 0 := by
  have kept : ((dispatch (manager.update current (Pcb.setState .blocked))).processTable child).exitCode =
      (manager.processTable child).exitCode := by
    rw [@dispatch_field _ (fun pcb => pcb.exitCode) _ (fun _ _ => rfl) fun _ _ => rfl]
    exact @update_aside _ (fun pcb => pcb.exitCode) _ (Pcb.setState .blocked) (fun _ => rfl) _ child
  constructor
  · intro reports
    obtain ⟨exited, status⟩ := reports _ _ _ (sysWaitpid_eq found) rfl
    rw [kept] at status
    exact ⟨exited, (Option.some.inj status).symm⟩
  · rintro ⟨exited, zero⟩ next code status returned _
    rw [sysWaitpid_eq found] at returned
    cases returned
    exact ⟨exited, by rw [kept, zero]⟩

end

/-- After any run, `sys_waitpid` reports the exit of a process, a child of the
caller or not, if and only if that had exited with `0` before the call; so it
never does for a child that is alive. -/
theorem waitpid_reports_exit_iff (kernelPageDir : Nat) (inputs : List Operation)
    (manager : ProcessManager)
    (reached : run step (initProcessManager kernelPageDir) inputs = some manager)
    (child : Slot) (pid options : Int) :
    ReportsExit manager child pid options ↔ ExitedBefore manager child := by
  obtain ⟨current, found⟩ := run_started reached
  rw [reportsExit_iff found, dispatch_state]
  have queue : (manager.update current (Pcb.setState .blocked)).readyQueue = manager.readyQueue := rfl
  rw [queue]
  constructor
  · rintro ⟨exited, zero⟩
    split at exited
    · cases exited
    · rename_i unchosen
      have other : child ≠ current := by
        intro same
        rw [same, ProcessManager.state, update_same] at exited
        cases exited
      rw [ProcessManager.state, update_other other] at exited
      exact ⟨exited, zero, fun same => other (Option.some.inj (found.symm.trans same)).symm,
        fun same => unchosen same.symm⟩
  · rintro ⟨exited, zero, other, unchosen⟩
    have different : child ≠ current := fun same => other (same ▸ found)
    rw [if_neg (Ne.symm unchosen), ProcessManager.state, update_other different]
    exact ⟨exited, zero⟩

/-- A child that is ready when its parent waits for it. -/
theorem waitpid_reports_exit_iff_ready :
    ∃ manager, run step (initProcessManager 0) [.process .forkProcess, .process .forkProcess] =
        some manager ∧ Child manager 1 2 ∧ (ReportsExit manager 1 2 0 ↔ ExitedBefore manager 1) :=
  ⟨_, rfl, ⟨rfl, rfl⟩,
    waitpid_reports_exit_iff 0 [.process .forkProcess, .process .forkProcess] _ rfl 1 2 0⟩

/-- `sys_waitpid` returns while the child is ready; the child then exits with `7`. -/
theorem ready_child_reported :
    ∃ manager next after, run step (initProcessManager 0)
        [.process .forkProcess, .process .forkProcess] = some manager ∧
      Child manager 1 2 ∧ manager.state 1 = .ready ∧
      sysWaitpid manager 2 true 0 = some (next, 2, some 0) ∧ next.state 1 = .ready ∧
      run step next [.process .schedulerGetNext, .process (.exitProcess 7)] = some after ∧
      (after.processTable 1).exitCode = 7 ∧ ¬ ReportsExit manager 1 2 0 := by
  refine ⟨_, _, _, rfl, ⟨rfl, rfl⟩, rfl, rfl, rfl, rfl, rfl, fun reports => ?_⟩
  exact absurd (reports _ _ _ rfl rfl).1 (by decide)

end Helios.Syscall
