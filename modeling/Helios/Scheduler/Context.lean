import Helios.Scheduler.Runnable

namespace Helios.Scheduler

open Helios.Data Queues
open Helios.Process (ProcessState)

/-! Which process a saved context belongs to, with the `current_process` of
`process.c`, which no function of `scheduler.c` assigns. -/

/-- The process whose context is on the processor, and for every control block
the process whose context it holds. -/
structure Machine (ι : Type) where
  queues : Queues ι
  onCpu : ι
  saved : ι → ι

section

variable {ι : Type} [DecidableEq ι]

/-- `switch_process` saves into the control block that `get_current_process`
returns, and loads from the one it is given.  The runs below have a current
process: without one the routine does not find its argument. -/
def Machine.switchProcess (machine : Machine ι) (next : ι) : Machine ι :=
  let saved :=
    match machine.queues.current with
    | none => machine.saved
    | some current => Function.update machine.saved current machine.onCpu
  { machine with onCpu := saved next, saved }

def Machine.apply (machine : Machine ι) : Queues ι × Option ι → Machine ι
  | (queues, none) => { machine with queues }
  | (queues, some next) => Machine.switchProcess { machine with queues } next

/-- The first due process of the blocked queue. -/
def firstDue (queues : Queues ι) : Nat → Option ι → Option ι
  | 0, _ => none
  | _ + 1, none => none
  | steps + 1, some process =>
      if Due queues process then some process else firstDue queues steps (queues.link process)

variable [Fintype ι]

def Machine.step (idle : ι) (machine : Machine ι) (event : Event) : Option (Machine ι) :=
  (handle idle machine.queues event).map machine.apply

/-- When a call switches, the context is saved where it belongs, and then the
process switched to is the current one. -/
def Faithful (idle : ι) (machine : Machine ι) (event : Event) : Prop :=
  ∀ queues next, handle idle machine.queues event = some (queues, some next) →
    queues.current = some machine.onCpu ∧
      (machine.apply (queues, some next)).queues.current = some next

/-- The head of the ready queue when the entry point calls `schedule`. -/
def upcoming (idle : ι) (queues : Queues ι) : Event → Option ι
  | .schedule => queues.readyQueue
  | .yield => if queues.current = some idle then queues.readyQueue
      else queues.readyQueue.or queues.current
  | .tick =>
      let ticked := { queues with tickCount := u32 (queues.tickCount + 1) }
      queues.readyQueue.or
        (firstDue ticked ((Fintype.card ι + 1) * (Fintype.card ι + 1)) queues.blockedQueue)

/-- The current process keeps the processor. -/
def Continues (idle : ι) (queues : Queues ι) (event : Event) : Prop :=
  ∀ current, queues.current = some current →
    Stays idle queues current ∨ (upcoming idle queues event).getD idle = current

variable {idle current process : ι} {queues after : Queues ι} {switched : Option ι}

theorem removeFromReadyQueue_current (result : removeFromReadyQueue queues process = some after) :
    after.current = queues.current := by
  cases start : queues.readyQueue with
  | none =>
      simp only [removeFromReadyQueue, start, Option.some.injEq] at result
      rw [result]
  | some head =>
      simp only [removeFromReadyQueue, start] at result
      split at result
      · exact Option.some.inj result ▸ rfl
      · obtain ⟨prev, _, same⟩ := Option.map_eq_some_iff.mp result
        rw [← same]
        split
        · rfl
        · rfl

theorem reschedule_switch (found : queues.current = some current)
    (result : reschedule idle queues = some (after, switched)) :
    after.current = some current ∧ switched ≠ some current ∧
      (switched = none ↔ queues.readyQueue.getD idle = current) := by
  simp only [reschedule, found] at result
  obtain ⟨middle, removed, rest⟩ := Option.bind_eq_some_iff.mp result
  obtain ⟨final, returned, same⟩ := Option.map_eq_some_iff.mp rest
  cases same
  have kept : middle.current = some current := by
    split at removed
    · exact (removeFromReadyQueue_current removed).trans found
    · exact Option.some.inj removed ▸ found
  constructor
  · split at returned
    · exact (addToReadyQueue_relinked returned).current.trans kept
    · exact Option.some.inj returned ▸ kept
  · have same : (queues.setTimeSlice current 100).readyQueue = queues.readyQueue := rfl
    rw [same]
    by_cases unchanged : queues.readyQueue.getD idle = current
    · simp [unchanged]
    · simp [unchanged]

theorem schedule_switch (found : queues.current = some current)
    (result : schedule idle queues = some (after, switched)) :
    after.current = some current ∧ switched ≠ some current ∧
      (switched = none ↔ Stays idle queues current ∨ queues.readyQueue.getD idle = current) := by
  by_cases stays : Stays idle queues current
  · have kept : current ≠ idle ∧ 0 < (queues.task current).timeSlice := stays
    simp only [schedule, found, if_pos kept, Option.some.injEq, Prod.mk.injEq] at result
    rw [← result.1, ← result.2]
    exact ⟨found, by simp, by simp [stays]⟩
  · rw [schedule_expired found stays] at result
    obtain ⟨same, moved, switches⟩ := reschedule_switch found result
    exact ⟨same, moved, by simp [switches, stays]⟩

omit [Fintype ι] in
theorem wakeFrom_head {steps : Nat} {prev : Option ι} {first : Option ι}
    (result : wakeFrom steps queues prev first = some after) :
    after.readyQueue = queues.readyQueue.or (firstDue queues steps first) ∧
      after.current = queues.current ∧
      ∀ process, (after.task process).timeSlice = (queues.task process).timeSlice := by
  induction steps generalizing queues prev first with
  | zero => cases result
  | succ steps ih =>
      cases first with
      | none =>
          cases result
          exact ⟨by simp [firstDue], rfl, fun _ => rfl⟩
      | some process =>
          by_cases due : Due queues process
          · rw [wakeFrom, if_pos due] at result
            obtain ⟨middle, added, later⟩ := Option.bind_eq_some_iff.mp result
            obtain ⟨head, same, slices⟩ := ih later
            have relinked := addToReadyQueue_relinked added
            have unlinked := unblock_relinked queues prev process
            have start : (unblock queues prev process).readyQueue = queues.readyQueue := by
              cases prev with
              | none => rfl
              | some prev => rfl
            refine ⟨?_, ?_, fun other => ?_⟩
            · rw [head, addToReadyQueue_head added]
              have same : ((unblock queues prev process).setState process .ready).readyQueue =
                  queues.readyQueue := start
              rw [same, firstDue, if_pos due, Option.or_assoc, Option.some_or]
            · rw [same, relinked.current]
              exact unlinked.current
            · rw [slices, relinked.timeSlice, timeSlice_setState, unlinked.timeSlice]
          · rw [wakeFrom, if_neg due] at result
            obtain ⟨head, rest⟩ := ih result
            refine ⟨?_, rest⟩
            rw [head, firstDue, if_neg due]

/-- Whether a call switches is decided before it. -/
theorem handle_switch {event : Event} (found : queues.current = some current)
    (result : handle idle queues event = some (after, switched)) :
    after.current = some current ∧ switched ≠ some current ∧
      (switched = none ↔ Continues idle queues event) := by
  have continues : Continues idle queues event ↔
      Stays idle queues current ∨ (upcoming idle queues event).getD idle = current := by
    simp [Continues, found]
  rw [continues]
  cases event with
  | schedule => exact schedule_switch found result
  | tick =>
      obtain ⟨middle, waked, scheduled⟩ := Option.bind_eq_some_iff.mp result
      obtain ⟨head, same, slices⟩ := wakeFrom_head waked
      obtain ⟨kept, moved, switches⟩ := schedule_switch (same.trans found) scheduled
      have stays : Stays idle middle current ↔ Stays idle queues current := by
        rw [Stays, Stays, slices]
      exact ⟨kept, moved, by rw [switches, stays, head]; rfl⟩
  | yield =>
      obtain ⟨middle, requeued, scheduled⟩ := Option.bind_eq_some_iff.mp result
      by_cases resting : current = idle
      · simp only [requeue, found, resting, ne_eq, not_true_eq_false, if_false,
          Option.some.injEq] at requeued
        subst requeued
        obtain ⟨kept, moved, switches⟩ := schedule_switch found scheduled
        exact ⟨kept, moved, by rw [switches, upcoming, if_pos (by rw [found, resting])]⟩
      · simp only [requeue, found, if_pos resting] at requeued
        have relinked := addToReadyQueue_relinked requeued
        have head := addToReadyQueue_head requeued
        obtain ⟨kept, moved, switches⟩ := schedule_switch (relinked.current.trans found) scheduled
        have stays : Stays idle middle current ↔ Stays idle queues current := by
          rw [Stays, Stays, relinked.timeSlice, timeSlice_setState]
        refine ⟨kept, moved, ?_⟩
        rw [switches, stays, head, upcoming, if_neg (by simpa [found] using resting), found]
        rfl

theorem Machine.step_continues {machine next : Machine ι} {event : Event}
    (begun : machine.queues.current = some machine.onCpu)
    (continues : Continues idle machine.queues event)
    (taken : machine.step idle event = some next) :
    next.queues.current = some next.onCpu := by
  obtain ⟨⟨queues, switched⟩, result, same⟩ := Option.map_eq_some_iff.mp taken
  obtain ⟨kept, _, switches⟩ := handle_switch begun result
  rw [switches.mpr continues] at same
  subst same
  exact kept

/-- Where the current process is the one on the processor, a call that returns
is faithful exactly when it does not switch. -/
theorem faithful_iff {machine next : Machine ι} {event : Event}
    (begun : machine.queues.current = some machine.onCpu)
    (taken : machine.step idle event = some next) :
    Faithful idle machine event ↔ Continues idle machine.queues event := by
  obtain ⟨⟨queues, switched⟩, result, _⟩ := Option.map_eq_some_iff.mp taken
  obtain ⟨kept, moved, switches⟩ := handle_switch begun result
  rw [← switches]
  constructor
  · intro faithful
    cases switched with
    | none => rfl
    | some next =>
        have renamed : queues.current = some next := (faithful queues next result).2
        exact absurd (renamed.symm.trans kept) moved
  · intro unswitched queues next switching
    rw [result] at switching
    cases switching
    cases unswitched

end

/-- From a state where `current_process` is the process on the processor, and
after any run of calls that switch to no other process, a call saves the
context where it belongs and makes the new process current exactly when it does
not switch either. -/
theorem saved_context_faithful_iff {ι : Type} [DecidableEq ι] [Fintype ι] (idle : ι)
    (start final next : Machine ι) (events : List Event) (event : Event)
    (begun : start.queues.current = some start.onCpu)
    (continued : Along (Machine.step idle)
      (fun machine event => Continues idle machine.queues event) start events)
    (reached : run (Machine.step idle) start events = some final)
    (taken : final.step idle event = some next) :
    Faithful idle final event ↔ Continues idle final.queues event := by
  refine faithful_iff ?_ taken
  exact run_invariant (fun machine => machine.queues.current = some machine.onCpu) continued begun
    (fun _ _ _ begun continues taken => Machine.step_continues begun continues taken) reached

theorem saved_context_faithful_iff_three :
    ∃ final next, run (Machine.step 0) ⟨threeProcesses 5, 1, id⟩ [.schedule] = some final ∧
      final.step 0 .tick = some next ∧
      (Faithful 0 final .tick ↔ Continues 0 final.queues .tick) := by
  refine ⟨_, _, rfl, rfl, ?_⟩
  refine saved_context_faithful_iff 0 ⟨threeProcesses 5, 1, id⟩ _ _ [.schedule] .tick rfl
    ⟨?_, fun next _ => trivial⟩ rfl rfl
  intro current found
  cases found
  exact .inl ⟨by decide, by decide⟩

/-- The idle process `0` runs, and `1` and `2` are queued. -/
def idleRunning : Machine (Fin 3) where
  queues :=
    { task := ![⟨.running, 0, 0, none⟩, ⟨.ready, 100, 0, some 2⟩, ⟨.ready, 100, 0, none⟩]
      readyQueue := some 1
      readyQueueTail := some 2
      blockedQueue := none
      tickCount := 0
      current := some 0 }
  onCpu := 0
  saved := id

/-- The second of two switches saves the context of process `1` in the control
block of the idle process. -/
theorem second_switch_misplaces_context :
    idleRunning.queues.current = some idleRunning.onCpu ∧
      ∃ middle final, idleRunning.step 0 .schedule = some middle ∧ middle.onCpu = 1 ∧
        middle.step 0 .schedule = some final ∧ final.saved 0 = 1 ∧
        ¬ Faithful 0 idleRunning .schedule ∧ ¬ Faithful 0 middle .schedule := by
  refine ⟨rfl, _, _, rfl, rfl, rfl, rfl, fun faithful => ?_, fun faithful => ?_⟩
  · exact absurd (faithful _ _ rfl).2 (by decide)
  · exact absurd (faithful _ _ rfl).1 (by decide)

end Helios.Scheduler
