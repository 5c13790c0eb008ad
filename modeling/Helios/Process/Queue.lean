import Helios.Process.Model

namespace Helios.Process

open Helios.Data ProcessManager

/-! What the queue functions do to a ready queue that ends. -/

section

variable {manager : ProcessManager} {slot proc : Slot} {change : Pcb → Pcb} {queue : List Slot}
variable {pcb : Pcb} {next : Option Slot} {state : ProcessState}

@[simp] theorem setNext_next : (pcb.setNext next).next = next := rfl
@[simp] theorem setNext_pid : (pcb.setNext next).pid = pcb.pid := rfl
@[simp] theorem setNext_state : (pcb.setNext next).state = pcb.state := rfl
@[simp] theorem setNext_name : (pcb.setNext next).name = pcb.name := rfl
@[simp] theorem setNext_self : pcb.setNext pcb.next = pcb := rfl

@[simp] theorem setState_next : (pcb.setState state).next = pcb.next := rfl
@[simp] theorem setState_pid : (pcb.setState state).pid = pcb.pid := rfl
@[simp] theorem setState_state : (pcb.setState state).state = state := rfl
@[simp] theorem setState_name : (pcb.setState state).name = pcb.name := rfl
@[simp] theorem setState_self : pcb.setState pcb.state = pcb := rfl
@[simp] theorem setNext_setState :
    (pcb.setState state).setNext next = (pcb.setNext next).setState state := rfl

@[simp] theorem update_readyQueue : (manager.update slot change).readyQueue = manager.readyQueue := rfl

@[simp] theorem update_same :
    (manager.update slot change).processTable slot = change (manager.processTable slot) := by
  simp [update]

theorem update_other (different : proc ≠ slot) :
    (manager.update slot change).processTable proc = manager.processTable proc := by
  simp [update, different]

theorem link_update_other (different : proc ≠ slot) :
    (manager.update slot change).link proc = manager.link proc := by
  simp [link, update_other different]

theorem link_setState : (manager.update slot (Pcb.setState state)).link = manager.link := by
  funext other
  by_cases same : other = slot
  · subst same
    simp [link]
  · exact link_update_other same

/-- The manager after `proc` has been appended to a queue that ends. -/
def enqueued (manager : ProcessManager) (queue : List Slot) (proc : Slot) : ProcessManager :=
  { manager with
    processTable := fun slot =>
      if slot = proc then (manager.processTable slot).setNext none
      else if queue.getLast? = some slot then (manager.processTable slot).setNext (some proc)
      else manager.processTable slot
    readyQueue := (queue ++ [proc]).head? }

theorem enqueueProcess_eq (chain : Chain manager.link manager.readyQueue queue)
    (absent : proc ∉ queue) :
    enqueueProcess manager proc = some (enqueued manager queue proc) := by
  have cleared : Chain (manager.update proc (Pcb.setNext none)).link manager.readyQueue queue :=
    chain.congr fun item member =>
      link_update_other (fun same => absent (same ▸ member))
  cases queue with
  | nil =>
      have empty : manager.readyQueue = none := chain
      simp only [enqueueProcess, update_readyQueue, empty]
      congr 1
      simp only [update, enqueued, ProcessManager.mk.injEq, List.nil_append, List.head?_cons,
        and_self, and_true]
      funext slot
      by_cases same : slot = proc
      · subst same
        simp
      · simp [same]
  | cons head rest =>
      have started : manager.readyQueue = some head := chain.1
      rw [started] at cleared
      have short : (head :: rest).length ≤ 64 := by
        simpa using chain.nodup.length_le_card
      obtain ⟨last, ending⟩ : ∃ last, (head :: rest).getLast? = some last := by
        simp [List.getLast?_cons]
      have present : last ∈ head :: rest := List.mem_of_getLast? ending
      have different : last ≠ proc := fun same => absent (same ▸ present)
      simp only [enqueueProcess, update_readyQueue, started, chainEnd_eq cleared short, ending]
      congr 1
      simp only [update, enqueued, ProcessManager.mk.injEq, List.cons_append, List.head?_cons,
        and_self, and_true, started, ending, Option.some.injEq]
      funext slot
      by_cases same : slot = proc
      · subst same
        simp [Ne.symm different]
      · by_cases atEnd : last = slot
        · subst atEnd
          simp [same]
        · simp [same, atEnd, Ne.symm atEnd]

theorem enqueued_chain (chain : Chain manager.link manager.readyQueue queue)
    (absent : proc ∉ queue) :
    Chain (enqueued manager queue proc).link (enqueued manager queue proc).readyQueue
      (queue ++ [proc]) := by
  rcases List.eq_nil_or_concat' queue with empty | ⟨front, last, shape⟩
  · subst empty
    have ended : (enqueued manager [] proc).link proc = none := by simp [enqueued, link]
    exact ⟨rfl, ended⟩
  · subst shape
    have distinct := chain.nodup
    have different : last ≠ proc := fun same => absent (by simp [same])
    have start : (enqueued manager (front ++ [last]) proc).readyQueue = manager.readyQueue := by
      cases front with
      | nil => exact chain.1.symm
      | cons first rest => exact chain.1.symm
    rw [start]
    refine chain.snoc (fun item member => ?_) ?_ ?_
    · have notProc : item ≠ proc := fun same => absent (by simp [← same, member])
      have notLast : last ≠ item := by
        intro same
        subst same
        have apart := (List.nodup_append.mp distinct).2.2 last member last (by simp)
        exact apart rfl
      simp [enqueued, link, notProc, notLast]
    · simp [enqueued, link, different]
    · simp [enqueued, link]

theorem enqueued_pcb (manager : ProcessManager) (queue : List Slot) (proc slot : Slot) :
    (enqueued manager queue proc).processTable slot =
      (manager.processTable slot).setNext ((enqueued manager queue proc).link slot) := by
  simp only [enqueued, link]
  split
  · rfl
  · split <;> rfl

theorem dequeueProcess_nil (empty : manager.readyQueue = none) :
    dequeueProcess manager = (manager, none) := by
  simp [dequeueProcess, empty]

theorem dequeueProcess_cons {head : Slot} {rest : List Slot}
    (chain : Chain manager.link manager.readyQueue (head :: rest)) :
    ∃ after, dequeueProcess manager = (after, some head) ∧
      Chain after.link after.readyQueue rest ∧ after.nextPid = manager.nextPid ∧
      ∀ slot, after.processTable slot = (manager.processTable slot).setNext (after.link slot) := by
  have started : manager.readyQueue = some head := chain.1
  have fresh : head ∉ rest := (List.nodup_cons.mp chain.nodup).1
  refine ⟨{ manager with readyQueue := manager.link head }.update head (Pcb.setNext none), ?_, ?_,
    rfl, ?_⟩
  · simp only [dequeueProcess, started]
  · refine chain.2.congr fun item member => ?_
    have different : item ≠ head := fun same => fresh (same ▸ member)
    rw [link_update_other different]
    rfl
  · intro slot
    by_cases same : slot = head
    · subst same
      simp [link]
    · simp [link, update_other same]

end

/-- The queue from which `scheduler_get_next` dequeues: a running current
process has been put behind the others. -/
def requeued (manager : ProcessManager) (queue : List Slot) : List Slot :=
  match manager.currentProcess with
  | none => queue
  | some current => if manager.state current = .running then queue ++ [current] else queue

/-- The process that `scheduler_get_next` selects. -/
def selected (manager : ProcessManager) (queue : List Slot) : Slot :=
  (requeued manager queue).head?.getD 0

def scheduledState (manager : ProcessManager) (queue : List Slot) (slot : Slot) : ProcessState :=
  if slot = selected manager queue then .running
  else if manager.currentProcess = some slot ∧ manager.state slot = .running then .ready
  else manager.state slot

/-- The effect of `scheduler_get_next` on a manager whose ready queue is `queue`. -/
structure Scheduled (manager : ProcessManager) (queue : List Slot) (after : ProcessManager) :
    Prop where
  current : after.currentProcess = some (selected manager queue)
  chain : Chain after.link after.readyQueue (requeued manager queue).tail
  nextPid : after.nextPid = manager.nextPid
  pcb : ∀ slot, after.processTable slot =
    ((manager.processTable slot).setNext (after.link slot)).setState
      (scheduledState manager queue slot)

section

variable {manager after middle : ProcessManager} {slot : Slot} {queue waiting : List Slot}

theorem Scheduled.state_eq (scheduled : Scheduled manager queue after) (slot : Slot) :
    after.state slot = scheduledState manager queue slot := by
  simp [ProcessManager.state, scheduled.pcb]

theorem Scheduled.choice_running (scheduled : Scheduled manager queue after) :
    after.state (selected manager queue) = .running := by
  simp [scheduled.state_eq, scheduledState]

theorem Scheduled.pid_eq (scheduled : Scheduled manager queue after) (slot : Slot) :
    after.pid slot = manager.pid slot := by
  simp [ProcessManager.pid, scheduled.pcb]

theorem requeueCurrent_spec (chain : Chain manager.link manager.readyQueue queue)
    (apart : ∀ current, manager.currentProcess = some current →
      manager.state current = .running → current ∉ queue) :
    ∃ middle, requeueCurrent manager = some middle ∧
      Chain middle.link middle.readyQueue (requeued manager queue) ∧
      middle.nextPid = manager.nextPid ∧
      ∀ slot, middle.processTable slot =
        ((manager.processTable slot).setNext (middle.link slot)).setState
          (if manager.currentProcess = some slot ∧ manager.state slot = .running then .ready
            else manager.state slot) := by
  cases found : manager.currentProcess with
  | none =>
      refine ⟨manager, by simp [requeueCurrent, found], by simpa [requeued, found] using chain, rfl, ?_⟩
      intro slot
      simp [link, ProcessManager.state]
  | some running =>
      by_cases active : manager.state running = .running
      · have absent := apart running found active
        have marked : Chain (manager.update running (Pcb.setState .ready)).link
            manager.readyQueue queue := by
          rw [link_setState]
          exact chain
        refine ⟨enqueued (manager.update running (Pcb.setState .ready)) queue running, ?_, ?_, rfl, ?_⟩
        · simp only [requeueCurrent, found, active, if_true]
          exact enqueueProcess_eq marked absent
        · simp only [requeued, found, active, if_true]
          exact enqueued_chain marked absent
        · intro slot
          rw [enqueued_pcb]
          by_cases same : slot = running
          · subst same
            simp [active]
          · simp only [update_other same, Option.some.injEq, Ne.symm same, false_and, if_false]
            rfl
      · refine ⟨manager, by simp [requeueCurrent, found, active],
          by simpa [requeued, found, active] using chain, rfl, ?_⟩
        intro slot
        by_cases same : running = slot
        · subst same
          simp only [active, and_false, if_false]
          rfl
        · simp [link, ProcessManager.state, same]

theorem dispatch_spec (chain : Chain middle.link middle.readyQueue waiting) :
    (dispatch middle).currentProcess = some (waiting.head?.getD 0) ∧
      Chain (dispatch middle).link (dispatch middle).readyQueue waiting.tail ∧
      (dispatch middle).nextPid = middle.nextPid ∧
      ∀ slot, (dispatch middle).processTable slot =
        ((middle.processTable slot).setNext ((dispatch middle).link slot)).setState
          (if slot = waiting.head?.getD 0 then .running else middle.state slot) := by
  have chosen : (dequeueProcess middle).2 = waiting.head? ∧
      Chain (dequeueProcess middle).1.link (dequeueProcess middle).1.readyQueue waiting.tail ∧
      (dequeueProcess middle).1.nextPid = middle.nextPid ∧
      ∀ slot, (dequeueProcess middle).1.processTable slot =
        (middle.processTable slot).setNext ((dequeueProcess middle).1.link slot) := by
    cases waiting with
    | nil =>
        rw [dequeueProcess_nil chain]
        exact ⟨rfl, chain, rfl, fun slot => by simp [link]⟩
    | cons head rest =>
        obtain ⟨after, result, shorter, pids, pcbs⟩ := dequeueProcess_cons chain
        rw [result]
        exact ⟨rfl, shorter, pids, pcbs⟩
  obtain ⟨head, shorter, pids, pcbs⟩ := chosen
  have links : (dispatch middle).link = (dequeueProcess middle).1.link := link_setState
  refine ⟨by simp [dispatch, head], by rw [links]; exact shorter, pids, fun slot => ?_⟩
  rw [links]
  by_cases same : slot = waiting.head?.getD 0
  · subst same
    simp [dispatch, head, pcbs]
  · simp only [dispatch, head, update_other same, pcbs, same, if_false]
    rfl

theorem schedulerGetNext_spec (chain : Chain manager.link manager.readyQueue queue)
    (apart : ∀ current, manager.currentProcess = some current →
      manager.state current = .running → current ∉ queue) :
    ∃ after, schedulerGetNext manager = some after ∧ Scheduled manager queue after := by
  obtain ⟨middle, requeuing, longer, samePid, states⟩ := requeueCurrent_spec chain apart
  obtain ⟨current, shorter, pids, pcbs⟩ := dispatch_spec longer
  refine ⟨dispatch middle, by simp [schedulerGetNext, requeuing], current, shorter,
    pids.trans samePid, fun slot => ?_⟩
  have between : middle.state slot =
      if manager.currentProcess = some slot ∧ manager.state slot = .running then .ready
      else manager.state slot := by
    simp [ProcessManager.state, states slot]
  rw [pcbs slot, between, states slot]
  rfl

end

end Helios.Process
