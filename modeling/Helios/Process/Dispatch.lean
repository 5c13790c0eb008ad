import Helios.Process.Runs

namespace Helios.Process

open Helios.Data ProcessManager

/-! Which processes `scheduler_get_next` makes `RUNNING`. -/

def Stopped (state : ProcessState) : Prop := state = .blocked ∨ state = .terminated

/-- The calls that stop the current process before they reschedule. -/
def Call.stops : Call → Bool
  | .exitProcess _ => true
  | .waitProcess _ => true
  | .sleepProcess _ => true
  | _ => false

/-- What a call writes to the current process before it reschedules. -/
def Call.mark : Call → Pcb → Pcb
  | .exitProcess exitCode => fun pcb => { pcb with exitCode, state := .terminated }
  | .waitProcess _ => Pcb.setState .blocked
  | .sleepProcess _ => Pcb.setState .blocked
  | _ => id

/-- The manager with which a call enters `scheduler_get_next`. -/
def entering (manager : ProcessManager) (input : Call) : ProcessManager :=
  match manager.currentProcess with
  | none => manager
  | some current => manager.update current input.mark

/-- The reschedule inside a call that turned `manager` into `next` made no
stopped process but the idle one run, and took the caller off the processor. -/
structure DispatchesRunnable (manager : ProcessManager) (input : Call) (next : ProcessManager) :
    Prop where
  changed : ∀ slot, Stopped ((entering manager input).state slot) → next.state slot = .running →
    manager.pid slot = 0
  left : ∀ current, input.stops = true → manager.currentProcess = some current →
    manager.pid current ≠ 0 → next.currentProcess ≠ some current

/-- A process that stops itself is not at the head of the ready queue; and when
the queue is empty, slot `0` holds the idle process or one that can run. -/
def Replaceable (manager : ProcessManager) (input : Call) : Prop :=
  input.stops = true → ∀ current, manager.currentProcess = some current →
    manager.readyQueue ≠ some current ∧
      (manager.readyQueue = none → manager.pid 0 = 0 ∨ current ≠ 0 ∧ ¬ Stopped (manager.state 0))

section

variable {manager next : ProcessManager} {queue : List Slot} {slot current : Slot} {input : Call}

theorem mark_stops (stopping : input.stops = true) : Stops input.mark := by
  cases input with
  | exitProcess exitCode => exact ⟨fun _ => rfl, fun _ => rfl, fun _ => rfl, fun _ => .inr rfl⟩
  | waitProcess pid => exact setState_stops (.inl rfl)
  | sleepProcess ms => exact setState_stops (.inl rfl)
  | _ => cases stopping

theorem entering_next : entering manager .schedulerGetNext = manager := by
  rw [entering]
  split
  · rfl
  · simp only [Call.mark, ProcessManager.update, id, Function.update_eq_self]

theorem entering_settling (sound : Sound manager queue) (reschedules : input.reschedules = true) :
    Settling (entering manager input) queue := by
  by_cases stopping : input.stops = true
  · obtain ⟨current, found⟩ := sound.started
    simp only [entering, found]
    exact sound.stop (sound.current_first found) (mark_stops stopping)
  · cases input with
    | schedulerGetNext =>
        rw [entering_next]
        exact sound.toSettling
    | exitProcess exitCode => exact absurd rfl stopping
    | waitProcess pid => exact absurd rfl stopping
    | sleepProcess ms => exact absurd rfl stopping
    | _ => cases reschedules

theorem call_entering (found : manager.currentProcess = some current)
    (reschedules : input.reschedules = true) :
    call manager input = (schedulerGetNext (entering manager input)).map (·, none) := by
  cases input with
  | schedulerGetNext =>
      rw [entering_next]
      rfl
  | exitProcess exitCode => simp only [call, exitProcess, entering, found, Call.mark]
  | waitProcess pid => simp only [call, waitProcess, blockCurrent, entering, found, Call.mark]
  | sleepProcess ms => simp only [call, sleepProcess, blockCurrent, entering, found, Call.mark]
  | _ => cases reschedules

theorem Sound.call_scheduled {filled : Option Slot} (sound : Sound manager queue)
    (reschedules : input.reschedules = true) (result : call manager input = some (next, filled)) :
    Scheduled (entering manager input) queue next := by
  obtain ⟨current, found⟩ := sound.started
  obtain ⟨after, returned, scheduled⟩ := (entering_settling sound reschedules).schedule
  rw [call_entering found reschedules, returned] at result
  cases result
  exact scheduled

/-- Only the selected process becomes `RUNNING`. -/
theorem dispatches_iff (settling : Settling (entering manager input) queue)
    (scheduled : Scheduled (entering manager input) queue next) :
    (∀ slot, Stopped ((entering manager input).state slot) → next.state slot = .running →
        manager.pid slot = 0) ↔
      (Stopped ((entering manager input).state (selected (entering manager input) queue)) →
        manager.pid (selected (entering manager input) queue) = 0) := by
  constructor
  · intro changed stopped
    exact changed _ stopped scheduled.choice_running
  · intro chosen slot stopped active
    rw [scheduled.state_eq] at active
    have same := settling.scheduled_running active
    subst same
    exact chosen stopped

theorem entering_state_other (found : manager.currentProcess = some current)
    (different : slot ≠ current) : (entering manager input).state slot = manager.state slot := by
  simp [entering, found, ProcessManager.state, update_other different]

theorem entering_state_current (found : manager.currentProcess = some current)
    (stopping : input.stops = true) : Stopped ((entering manager input).state current) := by
  have stopped := (mark_stops stopping).state (manager.processTable current)
  simpa [entering, found, ProcessManager.state, Stopped] using stopped

theorem entering_current : (entering manager input).currentProcess = manager.currentProcess := by
  cases found : manager.currentProcess with
  | none => simp [entering, found]
  | some current => simp only [entering, found]; exact found

/-- A call that stops its caller selects the head of the queue, or slot `0`. -/
theorem entering_selected (found : manager.currentProcess = some current)
    (stopping : input.stops = true) :
    selected (entering manager input) queue = queue.head?.getD 0 := by
  rw [selected, requeued_of_not_running]
  intro other same
  rw [entering_current, found] at same
  cases same
  cases entering_state_current found stopping with
  | inl blocked => simp [blocked]
  | inr terminated => simp [terminated]

/-- `scheduler_get_next` by itself never picks a stopped process. -/
theorem Healthy.selected_runnable (healthy : Healthy manager queue) :
    ¬ Stopped (manager.state (selected manager queue)) := by
  cases queue with
  | cons head rest =>
      rw [selected_of_head rfl, healthy.ready head (by simp)]
      simp [Stopped]
  | nil =>
      obtain ⟨current, found⟩ := healthy.started
      cases healthy.current current found with
      | inl running =>
          have chosen : selected manager [] = current := by simp [selected, requeued, found, running]
          rw [chosen, running]
          simp [Stopped]
      | inr rest =>
          cases rest with
          | inl terminated => exact absurd terminated (healthy.alive current found)
          | inr first => cases first

theorem Healthy.replaceable_iff (healthy : Healthy manager queue)
    (reschedules : input.reschedules = true) :
    (Stopped ((entering manager input).state (selected (entering manager input) queue)) →
      manager.pid (selected (entering manager input) queue) = 0) ↔ Replaceable manager input := by
  by_cases stopping : input.stops = true
  · obtain ⟨current, found⟩ := healthy.started
    have chain := healthy.chain
    rw [entering_selected found stopping]
    cases queue with
    | nil =>
        have empty : manager.readyQueue = none := chain
        simp only [Replaceable, stopping, found, empty, Option.some.injEq, List.head?_nil,
          Option.getD_none, ne_eq, reduceCtorEq, not_false_eq_true, true_and, forall_true_left,
          forall_eq']
        constructor
        · intro chosen
          by_cases blank : manager.pid 0 = 0
          · exact .inl blank
          · have runnable := mt chosen blank
            have different : current ≠ 0 := by
              intro same
              subst same
              exact runnable (entering_state_current found stopping)
            rw [entering_state_other found different.symm] at runnable
            exact .inr ⟨different, runnable⟩
        · intro safe stopped
          cases safe with
          | inl blank => exact blank
          | inr runnable =>
              rw [entering_state_other found (Ne.symm runnable.1)] at stopped
              exact absurd stopped runnable.2
    | cons head rest =>
        have start : manager.readyQueue = some head := chain.1
        have named : manager.pid head ≠ 0 := by
          intro blank
          by_cases same : head = 0
          · have empty := (healthy.idle (same ▸ blank)).2
            cases empty
          · exact (healthy.unused head same blank).1 (by simp)
        simp only [Replaceable, stopping, found, start, Option.some.injEq, List.head?_cons,
          Option.getD_some, ne_eq, reduceCtorEq, false_implies, and_true, forall_true_left,
          forall_eq']
        constructor
        · intro chosen same
          subst same
          exact named (chosen (entering_state_current found stopping))
        · intro different stopped
          rw [entering_state_other found different, healthy.ready head (by simp)] at stopped
          cases stopped with
          | inl blocked => cases blocked
          | inr terminated => cases terminated
  · have only : input = .schedulerGetNext := by
      cases input with
      | schedulerGetNext => rfl
      | exitProcess exitCode => exact absurd rfl stopping
      | waitProcess pid => exact absurd rfl stopping
      | sleepProcess ms => exact absurd rfl stopping
      | _ => cases reschedules
    subst only
    rw [entering_next]
    constructor
    · intro _ stops
      cases stops
    · intro _ stopped
      exact absurd stopped healthy.selected_runnable

end

/-- A reschedule dispatches only processes that can run, exactly when the
process that stops is not queued itself and the fallback to slot `0` is not
taken onto a stopped process. -/
theorem dispatch_runnable_iff (kernelPageDir : Nat) (calls : List Call)
    (manager next : ProcessManager) (input : Call) (filled : Option Slot)
    (unkilled : ∀ input ∈ calls, input.kills = false)
    (bound : creations (initProcessManager kernelPageDir) calls < 2 ^ 32)
    (reached : run step (initProcessManager kernelPageDir) calls = some manager)
    (reschedules : input.reschedules = true)
    (result : call manager input = some (next, filled)) :
    DispatchesRunnable manager input next ↔ Replaceable manager input := by
  obtain ⟨queue, healthy⟩ := run_healthy unkilled bound reached
  have settling := entering_settling healthy.toSound reschedules
  have scheduled := healthy.toSound.call_scheduled reschedules result
  rw [← healthy.replaceable_iff reschedules, ← dispatches_iff settling scheduled]
  constructor
  · intro dispatches
    exact dispatches.changed
  · intro changed
    refine ⟨changed, fun current stopping found named again => ?_⟩
    have chosen : selected (entering manager input) queue = current :=
      Option.some.inj (scheduled.current.symm.trans again)
    have active := scheduled.choice_running
    rw [chosen] at active
    exact named (changed current (entering_state_current found stopping) active)

theorem dispatch_runnable_iff_two :
    ∃ manager next, run step (initProcessManager 0)
        [.createProcess [97] 4096 8192, .schedulerGetNext, .forkProcess] = some manager ∧
      call manager (.exitProcess 0) = some (next, none) ∧
      (DispatchesRunnable manager (.exitProcess 0) next ↔ Replaceable manager (.exitProcess 0)) := by
  refine ⟨_, _, rfl, rfl, ?_⟩
  exact dispatch_runnable_iff 0 [.createProcess [97] 4096 8192, .schedulerGetNext, .forkProcess] _ _
    (.exitProcess 0) none (by decide) (by decide) rfl rfl rfl

/-- The only process exits, and the fallback to slot `0` runs it again. -/
theorem exited_process_dispatched :
    ∃ manager next, run step (initProcessManager 0)
        [.createProcess [97] 4096 8192, .schedulerGetNext] = some manager ∧
      call manager (.exitProcess 0) = some (next, none) ∧
      ¬ DispatchesRunnable manager (.exitProcess 0) next := by
  refine ⟨_, _, rfl, rfl, fun dispatches => ?_⟩
  exact absurd (dispatches.changed 0 (.inr rfl) rfl) (by decide)

end Helios.Process
