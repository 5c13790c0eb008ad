import Helios.Data.Chain
import Helios.Data.Memory
import Helios.Process.Model

namespace Helios.Scheduler

open Helios.Data
open Helios.Process (ProcessState)

/-! The tail-pointer queue and the time slices of `scheduler.c`.

`ι` is the type of the control blocks in memory, and `idle` the one that the
external `init_process` points to.  A function returns `none` where the source
does not return: a walk along a cyclic queue, or an access through `NULL`. -/

/-- The fields of `pcb_t` that `scheduler.c` uses. -/
structure Task (ι : Type) where
  state : ProcessState
  timeSlice : Nat
  wakeupTime : Nat
  next : Option ι
deriving Repr, DecidableEq

/-- The static variables of `scheduler.c`, the control blocks, and the process
that `get_current_process` returns. -/
structure Queues (ι : Type) where
  task : ι → Task ι
  readyQueue : Option ι
  readyQueueTail : Option ι
  blockedQueue : Option ι
  tickCount : Nat
  current : Option ι

section

variable {ι : Type} [DecidableEq ι]

namespace Queues

def update (queues : Queues ι) (process : ι) (change : Task ι → Task ι) : Queues ι :=
  { queues with task := Function.update queues.task process (change (queues.task process)) }

def link (queues : Queues ι) (process : ι) : Option ι := (queues.task process).next

def setNext (queues : Queues ι) (process : ι) (next : Option ι) : Queues ι :=
  queues.update process fun task => { task with next }

def setState (queues : Queues ι) (process : ι) (state : ProcessState) : Queues ι :=
  queues.update process fun task => { task with state }

def setTimeSlice (queues : Queues ι) (process : ι) (timeSlice : Nat) : Queues ι :=
  queues.update process fun task => { task with timeSlice }

end Queues

def addToReadyQueue (queues : Queues ι) (process : ι) : Option (Queues ι) :=
  let queues := queues.setNext process none
  match queues.readyQueue with
  | none => some { queues with readyQueue := some process, readyQueueTail := some process }
  | some _ =>
      match queues.readyQueueTail with
      | none => none
      | some tail =>
          some { queues.setNext tail (some process) with readyQueueTail := some process }

/-- The loop of `remove_from_ready_queue`: the last item before `process`, or
the last one of the queue. -/
def findPrev (queues : Queues ι) (process : ι) : Nat → ι → Option ι
  | 0, _ => none
  | steps + 1, prev =>
      match queues.link prev with
      | none => some prev
      | some following => if following = process then some prev else findPrev queues process steps following

/-- Moving `ready_queue` behind its first process. -/
def dropHead (queues : Queues ι) (process : ι) : Queues ι :=
  { queues with
    readyQueue := queues.link process
    readyQueueTail :=
      if queues.readyQueueTail = some process then none else queues.readyQueueTail }

variable [Fintype ι]

def removeFromReadyQueue (queues : Queues ι) (process : ι) : Option (Queues ι) :=
  match queues.readyQueue with
  | none => some queues
  | some head =>
      if head = process then
        some ((dropHead queues process).setNext process none)
      else
        (findPrev queues process (Fintype.card ι) head).map fun prev =>
          let queues :=
            if queues.link prev = some process then
              let queues := queues.setNext prev (queues.link process)
              { queues with
                readyQueueTail :=
                  if queues.readyQueueTail = some process then some prev
                  else queues.readyQueueTail }
            else queues
          queues.setNext process none

/-- `schedule` once the time slice of the current process is used up; the
second component is the argument of `switch_process`, if it is called. -/
def reschedule (idle : ι) (queues : Queues ι) : Option (Queues ι × Option ι) :=
  let current := queues.current
  let queues :=
    match current with
    | none => queues
    | some current => queues.setTimeSlice current 100
  let next := queues.readyQueue.getD idle
  (if next ≠ idle then removeFromReadyQueue queues next else some queues).bind fun (queues : Queues ι) =>
    (match current with
      | none => some queues
      | some current =>
          if current ≠ idle ∧ (queues.task current).state = ProcessState.running then
            addToReadyQueue (queues.setState current .ready) current
          else some queues).map fun (queues : Queues ι) =>
      (queues, if some next ≠ current then some next else none)

def schedule (idle : ι) (queues : Queues ι) : Option (Queues ι × Option ι) :=
  match queues.current with
  | none => reschedule idle queues
  | some current =>
      if current ≠ idle ∧ 0 < (queues.task current).timeSlice then
        some (queues.setTimeSlice current ((queues.task current).timeSlice - 1), none)
      else reschedule idle queues

/-- `yield` up to its call of `schedule`. -/
def requeue (idle : ι) (queues : Queues ι) : Option (Queues ι) :=
  match queues.current with
  | none => some queues
  | some current =>
      if current ≠ idle then addToReadyQueue (queues.setState current .ready) current
      else some queues

def yield (idle : ι) (queues : Queues ι) : Option (Queues ι × Option ι) :=
  (requeue idle queues).bind (schedule idle)

/-- The condition under which `timer_tick_handler` wakes a process. -/
def Due (queues : Queues ι) (process : ι) : Prop :=
  (queues.task process).state = .blocked ∧ (queues.task process).wakeupTime ≤ queues.tickCount

instance (queues : Queues ι) (process : ι) : Decidable (Due queues process) :=
  inferInstanceAs (Decidable (_ ∧ _))

/-- Taking `process` out of the blocked queue, where `prev` is before it. -/
def unblock (queues : Queues ι) (prev : Option ι) (process : ι) : Queues ι :=
  match prev with
  | some prev => queues.setNext prev (queues.link process)
  | none => { queues with blockedQueue := queues.link process }

/-- The blocked process that `prev` is before. -/
def behind (queues : Queues ι) : Option ι → Option ι
  | some prev => queues.link prev
  | none => queues.blockedQueue

/-- The loop of `timer_tick_handler` over the blocked queue. -/
def wakeFrom : Nat → Queues ι → Option ι → Option ι → Option (Queues ι)
  | 0, _, _, _ => none
  | _ + 1, queues, _, none => some queues
  | steps + 1, queues, prev, some process =>
      if Due queues process then
        (addToReadyQueue ((unblock queues prev process).setState process .ready) process).bind
          fun queues =>
            wakeFrom steps queues prev (behind queues prev)
      else wakeFrom steps queues (some process) (queues.link process)

/-- `timer_tick_handler` up to its call of `schedule`.  Between two wakings the
loop follows unchanged links, so a longer walk does not end. -/
def wake (queues : Queues ι) : Option (Queues ι) :=
  let queues := { queues with tickCount := u32 (queues.tickCount + 1) }
  wakeFrom ((Fintype.card ι + 1) * (Fintype.card ι + 1)) queues none queues.blockedQueue

def timerTickHandler (idle : ι) (queues : Queues ι) : Option (Queues ι × Option ι) :=
  (wake queues).bind (schedule idle)

inductive Event where
  | tick
  | yield
  | schedule
deriving Repr, DecidableEq

def handle (idle : ι) (queues : Queues ι) : Event → Option (Queues ι × Option ι)
  | .tick => timerTickHandler idle queues
  | .yield => yield idle queues
  | .schedule => schedule idle queues

namespace Queues

variable {queues : Queues ι} {process other : ι} {next : Option ι} {change : Task ι → Task ι}

omit [Fintype ι]

theorem update_same : (queues.update process change).task process = change (queues.task process) := by
  simp [update]

theorem update_other (different : other ≠ process) :
    (queues.update process change).task other = queues.task other := by
  simp [update, different]

theorem update_field {β : Type} {field : Task ι → β} (kept : ∀ task, field (change task) = field task) :
    field ((queues.update process change).task other) = field (queues.task other) := by
  by_cases same : other = process
  · subst same
    rw [update_same, kept]
  · rw [update_other same]

theorem link_setNext_same : (queues.setNext process next).link process = next := by
  rw [link, setNext, update_same]

theorem link_setNext_other (different : other ≠ process) :
    (queues.setNext process next).link other = queues.link other := by
  rw [link, setNext, update_other different, link]

theorem link_setState {state : ProcessState} : (queues.setState process state).link = queues.link := by
  funext other
  exact update_field fun _ => rfl

theorem state_setState {state : ProcessState} :
    ((queues.setState process state).task other).state =
      if other = process then state else (queues.task other).state := by
  by_cases same : other = process
  · subst same
    simp [setState, update_same]
  · simp [setState, update_other same, same]

theorem timeSlice_setState {state : ProcessState} :
    ((queues.setState process state).task other).timeSlice = (queues.task other).timeSlice :=
  update_field fun _ => rfl

theorem state_setTimeSlice {timeSlice : Nat} :
    ((queues.setTimeSlice process timeSlice).task other).state = (queues.task other).state :=
  update_field fun _ => rfl

theorem link_setTimeSlice {timeSlice : Nat} :
    (queues.setTimeSlice process timeSlice).link = queues.link := by
  funext other
  exact update_field fun _ => rfl

end Queues

end

end Helios.Scheduler
