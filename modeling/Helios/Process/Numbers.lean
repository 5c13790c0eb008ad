import Helios.Process.Fields
import Helios.Process.Runs

namespace Helios.Process

open Helios.Data ProcessManager

/-! The numbers of the processes, in every run that hands out each of them once. -/

/-- `process_table[slot].pid == pid`; `pid` is compared as an unsigned number. -/
def HasPid (manager : ProcessManager) (pid : Int) (slot : Slot) : Prop :=
  (manager.pid slot : Int) = pid % 4294967296

/-- `kill_process` succeeds where a process with the number is not terminated,
and terminates that one alone. -/
structure Killing (manager : ProcessManager) (pid sig : Int) : Prop where
  succeeds : (killProcess manager pid sig).2 = 0 ↔
    ∃ slot, HasPid manager pid slot ∧ manager.state slot ≠ .terminated
  terminated : ∀ slot, HasPid manager pid slot → manager.state slot ≠ .terminated →
    (killProcess manager pid sig).1 = manager.update slot (Pcb.setState .terminated)
  failed : (killProcess manager pid sig).2 ≠ 0 → killProcess manager pid sig = (manager, -1)

/-- Every number in the table has been handed out, and no two slots share one. -/
structure Numbered (manager : ProcessManager) : Prop where
  below : ∀ slot, manager.pid slot < manager.nextPid
  distinct : ∀ slot other, manager.pid slot = manager.pid other → manager.pid slot ≠ 0 → slot = other

section

variable {manager next : ProcessManager} {slot : Slot} {input : Call} {filled : Option Slot}
variable {calls : List Call} {pid sig : Int}

theorem initProcessManager_numbered (kernelPageDir : Nat) :
    Numbered (initProcessManager kernelPageDir) := by
  have blank : ∀ slot, (initProcessManager kernelPageDir).pid slot = 0 := by
    intro slot
    by_cases same : slot = 0
    · subst same
      simp [ProcessManager.pid, initProcessManager]
    · simp [ProcessManager.pid, initProcessManager, same]
  refine ⟨fun slot => ?_, fun slot other _ used => absurd (blank slot) used⟩
  rw [blank]
  exact Nat.zero_lt_one

theorem pid_aside : Aside Pcb.pid := ⟨fun _ _ => rfl, fun _ _ => rfl, fun _ _ => rfl⟩

/-- A slot keeps its number until it is filled again. -/
theorem call_pid (result : call manager input = some (next, filled)) (slot : Slot) :
    next.pid slot = if filled = some slot then manager.nextPid else manager.pid slot := by
  by_cases here : filled = some slot
  · subst here
    obtain ⟨pcb, filling, kept⟩ := filled_aside pid_aside result
    rw [if_pos rfl, ProcessManager.pid, kept]
    obtain ⟨_, _, _, _, _, _, same⟩ | ⟨_, _, _, _, same⟩ := filling
    · rw [same]
      rfl
    · rw [same]
      rfl
  · rw [if_neg here]
    exact call_aside pid_aside result slot here

theorem call_numbered (numbered : Numbered manager) (counted : Counted (2 ^ 32 - 1) manager input)
    (result : call manager input = some (next, filled)) :
    Numbered next ∧ manager.nextPid ≤ next.nextPid := by
  have pids := call_pid result
  have counting := call_nextPid result
  cases filled with
  | none =>
      simp only [Option.isSome_none, Bool.false_eq_true, if_false] at counting
      simp only [reduceCtorEq, if_false] at pids
      refine ⟨⟨fun slot => ?_, fun slot other => ?_⟩, counting.ge⟩
      · rw [pids, counting]
        exact numbered.below slot
      · rw [pids, pids]
        exact numbered.distinct slot other
  | some taken =>
      have room := (counted next taken result).2
      simp only [Option.isSome_some, if_true, u32] at counting
      rw [Nat.mod_eq_of_lt (by omega)] at counting
      simp only [Option.some.injEq] at pids
      refine ⟨⟨fun slot => ?_, fun slot other => ?_⟩, by omega⟩
      · rw [pids, counting]
        have old := numbered.below slot
        split <;> omega
      · rw [pids, pids]
        have old := numbered.below slot
        have otherOld := numbered.below other
        intro same used
        split at same
        · split at same
          · rename_i here there
            exact here.symm.trans there
          · omega
        · split at same
          · omega
          · rename_i here _
            rw [if_neg here] at used
            exact numbered.distinct slot other same used

theorem run_numbered {kernelPageDir : Nat}
    (bound : creations (initProcessManager kernelPageDir) calls < 2 ^ 32 - 1)
    (reached : run step (initProcessManager kernelPageDir) calls = some manager) :
    Numbered manager := by
  have counted : Along step (Counted (2 ^ 32 - 1)) (initProcessManager kernelPageDir) calls :=
    along_counted (show _ = u32 (0 + 1) from rfl) (by omega) (by omega)
  refine run_invariant Numbered counted (initProcessManager_numbered kernelPageDir) ?_ reached
  intro manager input next numbered counted taken
  obtain ⟨⟨after, filled⟩, result, same⟩ := Option.map_eq_some_iff.mp taken
  cases same
  exact (call_numbered numbered counted result).1

theorem killSlot_eq_some (found : killSlot manager pid = some slot) :
    HasPid manager pid slot ∧ manager.state slot ≠ .terminated := by
  have matching := List.find?_some found
  simp only [Bool.and_eq_true, decide_eq_true_eq] at matching
  exact matching

theorem killSlot_eq_none (missing : killSlot manager pid = none) (slot : Slot)
    (itsPid : HasPid manager pid slot) : manager.state slot = .terminated := by
  have passed := List.find?_eq_none.mp missing slot (List.mem_finRange slot)
  rw [HasPid] at itsPid
  simpa [itsPid] using passed

/-- A number other than `0` leads to one process, which `kill_process` finds. -/
theorem Numbered.killing (numbered : Numbered manager) (used : pid ≠ 0)
    (signed : -2147483648 ≤ pid ∧ pid < 2147483648) : Killing manager pid sig := by
  cases found : killSlot manager pid with
  | none =>
      have missed : killProcess manager pid sig = (manager, -1) := by
        rw [killProcess, found]
      have none_left := killSlot_eq_none found
      refine ⟨?_, fun slot itsPid alive => absurd (none_left slot itsPid) alive, fun _ => missed⟩
      rw [missed]
      constructor
      · intro zero
        have code : (-1 : Int) = 0 := zero
        exact absurd code (by decide)
      · rintro ⟨slot, itsPid, alive⟩
        exact absurd (none_left slot itsPid) alive
  | some victim =>
      have killed : killProcess manager pid sig =
          (manager.update victim (Pcb.setState .terminated), 0) := by
        rw [killProcess, found]
      obtain ⟨itsPid, alive⟩ := killSlot_eq_some found
      refine ⟨?_, fun slot same _ => ?_, fun failed => ?_⟩
      · rw [killed]
        exact ⟨fun _ => ⟨victim, itsPid, alive⟩, fun _ => rfl⟩
      · have here : slot = victim := by
          refine numbered.distinct slot victim ?_ ?_
          · rw [HasPid] at same itsPid
            omega
          · rw [HasPid] at same
            omega
        rw [killed, here]
      · rw [killed] at failed
        exact absurd rfl failed

end

/-- In every run that creates fewer than `2 ^ 32 - 1` processes, whatever it
kills, the numbers other than `0` identify their processes. -/
theorem pids_identify_processes (kernelPageDir : Nat) (calls : List Call) (manager : ProcessManager)
    (bound : creations (initProcessManager kernelPageDir) calls < 2 ^ 32 - 1)
    (reached : run step (initProcessManager kernelPageDir) calls = some manager) :
    (∀ slot other, slot ≠ other → manager.pid slot ≠ 0 → manager.pid other ≠ 0 →
      manager.pid slot ≠ manager.pid other) ∧
    (∀ slot, manager.pid slot < manager.nextPid) ∧
    ∀ pid sig : Int, pid ≠ 0 → -2147483648 ≤ pid → pid < 2147483648 → Killing manager pid sig := by
  have numbered := run_numbered bound reached
  refine ⟨fun slot other different used _ same => ?_, numbered.below, ?_⟩
  · exact different (numbered.distinct slot other same used)
  · intro pid sig used low high
    exact numbered.killing used ⟨low, high⟩

/-- The slot of a killed process is filled again under a new number. -/
theorem pids_identify_processes_refilled :
    ∃ manager, run step (initProcessManager 0) [.createProcess [97] 4096 8192,
        .createProcess [98] 4096 8192, .killProcess 2 9, .forkProcess] = some manager ∧
      manager.pid 1 = 3 ∧ Killing manager 3 9 := by
  refine ⟨_, rfl, rfl, ?_⟩
  exact (pids_identify_processes 0 [.createProcess [97] 4096 8192, .createProcess [98] 4096 8192,
    .killProcess 2 9, .forkProcess] _ (by decide) rfl).2.2 3 9 (by decide) (by decide) (by decide)

end Helios.Process
