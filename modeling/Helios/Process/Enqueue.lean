import Helios.Process.Calls

namespace Helios.Process

open Helios.Data ProcessManager

/-! The public `add_to_ready_queue` of `process.c`. -/

def addToReadyQueue (manager : ProcessManager) : Option Slot → Option ProcessManager
  | none => some manager
  | some proc => enqueueProcess (manager.update proc (Pcb.setState .ready)) proc

inductive QueueCall where
  | createProcess (name : List UInt8) (entry stackTop : Nat)
  | forkProcess
  | schedulerGetNext
  | addToReadyQueue (proc : Option Slot)

/-- The process table, and the pointers that creations have returned. -/
structure Clients where
  manager : ProcessManager
  returned : List Slot

def Clients.start (kernelPageDir : Nat) : Clients := ⟨initProcessManager kernelPageDir, []⟩

/-- One call; `add_to_ready_queue` is given a pointer that a creation returned. -/
def queueStep (clients : Clients) : QueueCall → Option Clients
  | .createProcess name entry stackTop =>
      (createProcess clients.manager name entry stackTop).map fun (manager, slot) =>
        ⟨manager, slot.toList ++ clients.returned⟩
  | .forkProcess =>
      (forkProcess clients.manager).map fun (manager, slot) =>
        ⟨manager, slot.toList ++ clients.returned⟩
  | .schedulerGetNext => (schedulerGetNext clients.manager).map (⟨·, clients.returned⟩)
  | .addToReadyQueue proc =>
      if ∀ slot ∈ proc, slot ∈ clients.returned then
        (addToReadyQueue clients.manager proc).map (⟨·, clients.returned⟩)
      else none

/-- The process handed to `add_to_ready_queue` is not `READY`. -/
def Unqueued (clients : Clients) : QueueCall → Prop
  | .addToReadyQueue (some proc) => clients.manager.state proc ≠ .ready
  | _ => True

/-- The queue is `NULL`-terminated without repetition, so every enqueue ends. -/
structure QueueEnds (manager : ProcessManager) : Prop where
  chain : ∃ queue, Chain manager.link manager.readyQueue queue ∧ queue.Nodup
  terminates : ∀ proc, (enqueueProcess manager proc).isSome

section

variable {manager next : ProcessManager} {queue : List Slot} {proc slot : Slot} {pcb : Pcb}

/-- Enqueueing a queued process links it to itself. -/
theorem enqueueProcess_queued (chain : Chain manager.link manager.readyQueue queue)
    (member : proc ∈ queue) :
    ∃ next, enqueueProcess manager proc = some next ∧
      OnChain next.link next.readyQueue proc ∧ next.link proc = some proc := by
  obtain ⟨front, back, shape⟩ := List.append_of_mem member
  subst shape
  have distinct := chain.nodup
  have apart : ∀ item ∈ front, item ≠ proc := by
    intro item inside same
    exact (List.nodup_append.mp distinct).2.2 item inside proc (by simp) same
  have cut : Chain (manager.update proc (Pcb.setNext none)).link manager.readyQueue
      (front ++ [proc]) :=
    chain.cut (fun item inside => link_update_other (apart item inside)) (by simp [link])
  have short : (front ++ [proc]).length ≤ 64 := by
    simpa using cut.nodup.length_le_card
  obtain ⟨head, started⟩ : ∃ head, manager.readyQueue = some head := by
    cases front with
    | nil => exact ⟨_, chain.1⟩
    | cons first rest => exact ⟨_, chain.1⟩
  have ending : chainEnd (manager.update proc (Pcb.setNext none)).link 64 head = some proc := by
    rw [started] at cut
    rw [chainEnd_eq cut short]
    simp
  refine ⟨(manager.update proc (Pcb.setNext none)).update proc (Pcb.setNext (some proc)), ?_, ?_, ?_⟩
  · simp only [enqueueProcess, update_readyQueue, started, ending]
  · refine cut.onChain fun item inside => ?_
    rw [link_update_other (apart item inside)]
  · simp [link]

theorem QueueEnds.of_chain (chain : Chain manager.link manager.readyQueue queue) :
    QueueEnds manager := by
  refine ⟨⟨queue, chain, chain.nodup⟩, fun proc => ?_⟩
  by_cases member : proc ∈ queue
  · obtain ⟨next, result, _⟩ := enqueueProcess_queued chain member
    simp [result]
  · simp [enqueueProcess_eq chain member]

theorem addToReadyQueue_queued (chain : Chain manager.link manager.readyQueue queue)
    (member : proc ∈ queue) (result : addToReadyQueue manager (some proc) = some next) :
    ¬ QueueEnds next := by
  intro ends
  have marked : Chain (manager.update proc (Pcb.setState .ready)).link
      (manager.update proc (Pcb.setState .ready)).readyQueue queue := by
    rw [link_setState]
    exact chain
  obtain ⟨after, enqueued, linked, loop⟩ := enqueueProcess_queued marked member
  rw [addToReadyQueue, enqueued] at result
  cases result
  obtain ⟨items, ended, _⟩ := ends.chain
  exact ended.not_self (ended.mem_iff.mp linked) loop

/-- The slots that hold a process with a number. -/
def numbered (manager : ProcessManager) : Finset Slot :=
  Finset.univ.filter fun slot => manager.pid slot ≠ 0

/-- Nothing has stopped, so that creations have only filled slots. -/
structure Filled (manager : ProcessManager) : Prop where
  alive : ∀ slot, manager.pid slot ≠ 0 → manager.state slot ≠ .terminated
  counted : manager.nextPid = (numbered manager).card + 1

/-- The invariant of these runs. -/
structure Served (clients : Clients) (queue : List Slot) : Prop where
  lined : Lined clients.manager queue
  busy : ∀ slot, clients.manager.pid slot ≠ 0 →
    clients.manager.state slot = .ready ∨ clients.manager.state slot = .running
  counted : clients.manager.nextPid = (numbered clients.manager).card + 1
  returned : ∀ slot ∈ clients.returned, clients.manager.pid slot ≠ 0

variable {clients after : Clients}

theorem Served.start (kernelPageDir : Nat) : Served (Clients.start kernelPageDir) [] := by
  have blank : ∀ slot, (initProcessManager kernelPageDir).pid slot = 0 := by
    intro slot
    by_cases same : slot = 0
    · subst same
      rfl
    · simp [initProcessManager, ProcessManager.pid, same]
  refine ⟨(initProcessManager_sound kernelPageDir).lined, fun slot named => ?_, ?_, by simp [Clients.start]⟩
  · exact absurd (blank slot) named
  · simp only [Clients.start, numbered, blank, ne_eq, not_true_eq_false, Finset.filter_false,
      Finset.card_empty]
    rfl

theorem Filled.free_blank (filled : Filled manager) (found : freeSlot manager = some slot) :
    manager.pid slot = 0 := by
  have free := freeSlot_free found
  simp only [isFreeSlot, Bool.or_eq_true, decide_eq_true_eq] at free
  cases free with
  | inr blank => exact blank
  | inl terminated =>
      by_contra named
      exact filled.alive slot named terminated

/-- There are no more numbers than slots, so that they do not wrap. -/
theorem Filled.place (filled : Filled manager) (found : freeSlot manager = some slot)
    (pid : pcb.pid = manager.nextPid) (alive : pcb.state ≠ .terminated) (ended : pcb.next = none) :
    pcb.pid ≠ 0 ∧ Filled (placed manager queue slot pcb) := by
  have counted : pcb.pid ≠ 0 := by
    rw [pid, filled.counted]
    omega
  have here : (placed manager queue slot pcb).pid slot ≠ 0 := by
    rwa [ProcessManager.pid, placed_same ended]
  have grown : numbered (placed manager queue slot pcb) = insert slot (numbered manager) := by
    ext other
    by_cases same : other = slot
    · subst same
      simp [numbered, here]
    · simp [numbered, placed_pid_other same, same]
  have fresh : slot ∉ numbered manager := by simp [numbered, filled.free_blank found]
  refine ⟨counted, fun other some_pid => ?_, ?_⟩
  · by_cases same : other = slot
    · subst same
      rwa [ProcessManager.state, placed_same ended]
    · rw [placed_pid_other same] at some_pid
      rw [placed_state_other same]
      exact filled.alive other some_pid
  · have count := Finset.card_insert_of_notMem fresh
    have most : (insert slot (numbered manager)).card ≤ 64 := by
      simpa using Finset.card_le_univ (insert slot (numbered manager))
    have next : (placed manager queue slot pcb).nextPid = u32 (manager.nextPid + 1) := rfl
    rw [next, filled.counted, grown, count, u32_of_lt (by omega)]

theorem Filled.keep (filled : Filled manager) (pids : ∀ slot, next.pid slot = manager.pid slot)
    (number : next.nextPid = manager.nextPid)
    (alive : ∀ slot, manager.state slot ≠ .terminated → next.state slot ≠ .terminated) :
    Filled next := by
  have same : numbered next = numbered manager := by
    ext slot
    simp [numbered, pids]
  refine ⟨fun slot named => alive slot (filled.alive slot (pids slot ▸ named)), ?_⟩
  rw [number, same]
  exact filled.counted

theorem Filled.update {change : Pcb → Pcb} (filled : Filled manager)
    (pids : ∀ pcb, (change pcb).pid = pcb.pid) (alive : ∀ pcb, (change pcb).state ≠ .terminated) :
    Filled (manager.update slot change) := by
  refine filled.keep (fun other => ?_) rfl fun other going => ?_
  · by_cases same : other = slot
    · rw [same, ProcessManager.pid, update_same, pids]
      rfl
    · rw [ProcessManager.pid, update_other same]
      rfl
  · by_cases same : other = slot
    · rw [same, ProcessManager.state, update_same]
      exact alive _
    · rwa [ProcessManager.state, update_other same]

theorem Served.filled (served : Served clients queue) : Filled clients.manager := by
  refine ⟨fun slot named => ?_, served.counted⟩
  cases served.busy slot named with
  | inl ready => simp [ready]
  | inr running => simp [running]

theorem Served.place (served : Served clients queue)
    (found : freeSlot clients.manager = some slot) (pid : pcb.pid = clients.manager.nextPid)
    (ready : pcb.state = .ready) (ended : pcb.next = none) (named : (copyName pcb.name).isSome) :
    Served ⟨placed clients.manager queue slot pcb, slot :: clients.returned⟩ (queue ++ [slot]) := by
  obtain ⟨counted, filled⟩ := served.filled.place found pid (by simp [ready]) ended
  refine ⟨served.lined.place found (pid ▸ counted) pid ready ended named, ?_, filled.counted, ?_⟩
  · intro other some_pid
    by_cases same : other = slot
    · subst same
      exact .inl (by rw [ProcessManager.state, placed_same ended, ready])
    · rw [placed_pid_other same] at some_pid
      rw [placed_state_other same]
      exact served.busy other some_pid
  · intro other member
    by_cases same : other = slot
    · rw [same, ProcessManager.pid, placed_same ended]
      exact counted
    · rw [placed_pid_other same]
      exact served.returned other ((List.mem_cons.mp member).resolve_left same)

theorem Served.schedule (served : Served clients queue)
    (result : schedulerGetNext clients.manager = some next) :
    ∃ queue, Served ⟨next, clients.returned⟩ queue := by
  obtain ⟨after, returned, scheduled⟩ := served.lined.toSettling.schedule
  rw [result] at returned
  cases returned
  refine ⟨_, (served.lined.toSettling.scheduled_sound scheduled).lined, ?_, ?_, ?_⟩
  · intro slot named
    rw [scheduled.pid_eq] at named
    rw [scheduled.state_eq, scheduledState]
    split
    · exact .inr rfl
    · split
      · exact .inl rfl
      · exact served.busy slot named
  · have same : numbered next = numbered clients.manager := by
      ext slot
      simp [numbered, scheduled.pid_eq]
    rw [scheduled.nextPid, same]
    exact served.counted
  · intro slot member
    rw [scheduled.pid_eq]
    exact served.returned slot member

/-- The process table after `add_to_ready_queue` has appended `proc`. -/
def added (manager : ProcessManager) (queue : List Slot) (proc : Slot) : ProcessManager :=
  enqueued (manager.update proc (Pcb.setState .ready)) queue proc

theorem added_state : (added manager queue proc).state slot =
    if slot = proc then .ready else manager.state slot := by
  rw [ProcessManager.state, added, enqueued_pcb]
  by_cases same : slot = proc
  · subst same
    simp
  · simp [same, update_other same, ProcessManager.state]

theorem added_pid : (added manager queue proc).pid slot = manager.pid slot := by
  rw [ProcessManager.pid, added, enqueued_pcb]
  by_cases same : slot = proc
  · subst same
    simp [ProcessManager.pid]
  · simp [update_other same, ProcessManager.pid]

theorem added_name :
    ((added manager queue proc).processTable slot).name = (manager.processTable slot).name := by
  rw [added, enqueued_pcb]
  by_cases same : slot = proc
  · subst same
    simp
  · simp [update_other same]

theorem Lined.add (lined : Lined manager queue) (active : manager.state proc = .running)
    (named : manager.pid proc ≠ 0) (begun : manager.pid 0 ≠ 0) :
    Lined (added manager queue proc) (queue ++ [proc]) := by
  have absent := lined.current_not_mem active
  have marked : Chain (manager.update proc (Pcb.setState .ready)).link
      (manager.update proc (Pcb.setState .ready)).readyQueue queue := by
    rw [link_setState]
    exact lined.chain
  have allReady : ∀ slot ∈ queue ++ [proc], (added manager queue proc).state slot = .ready := by
    intro slot member
    rw [added_state]
    split
    · rfl
    · rename_i different
      simp only [List.mem_append, List.mem_singleton, different, or_false] at member
      exact lined.ready slot member
  have stillRunning : ∀ slot, (added manager queue proc).state slot = .running →
      manager.state slot = .running := by
    intro slot running
    rw [added_state] at running
    split at running
    · cases running
    · exact running
  refine
    { chain := enqueued_chain marked absent
      queued := ?_
      waiting := fun slot member => .inl (allReady slot member)
      running := fun slot running => lined.running slot (stillRunning slot running)
      started := lined.started
      unused := ?_
      idle := fun blank => absurd (added_pid.symm.trans blank) begun
      named := fun slot => by rw [added_name]; exact lined.named slot
      ready := allReady }
  · intro slot ready
    rw [added_state] at ready
    split at ready
    · rename_i same
      simp [same]
    · simp [lined.queued slot ready]
  · intro slot different blank
    rw [added_pid] at blank
    obtain ⟨outside, stopped⟩ := lined.unused slot different blank
    have notProc : slot ≠ proc := fun same => named (same ▸ blank)
    exact ⟨by simp [outside, notProc], fun running => stopped (stillRunning slot running)⟩

/-- In these runs a process that is not queued is the running one. -/
theorem Served.add (served : Served clients queue) (member : proc ∈ clients.returned)
    (unready : clients.manager.state proc ≠ .ready) :
    addToReadyQueue clients.manager (some proc) = some (added clients.manager queue proc) ∧
      Served ⟨added clients.manager queue proc, clients.returned⟩ (queue ++ [proc]) := by
  have named := served.returned proc member
  have active : clients.manager.state proc = .running :=
    (served.busy proc named).resolve_left unready
  have begun : clients.manager.pid 0 ≠ 0 := by
    intro blank
    have current := served.lined.running proc active
    rw [(served.lined.idle blank).1] at current
    exact named (Option.some.inj current ▸ blank)
  have marked : Chain (clients.manager.update proc (Pcb.setState .ready)).link
      (clients.manager.update proc (Pcb.setState .ready)).readyQueue queue := by
    rw [link_setState]
    exact served.lined.chain
  refine ⟨enqueueProcess_eq marked (served.lined.current_not_mem active),
    served.lined.add active named begun, ?_, ?_, ?_⟩
  · intro slot some_pid
    rw [added_pid] at some_pid
    rw [added_state]
    split
    · exact .inl rfl
    · exact served.busy slot some_pid
  · have same : numbered (added clients.manager queue proc) = numbered clients.manager := by
      ext slot
      simp [numbered, added_pid]
    have number : (added clients.manager queue proc).nextPid = clients.manager.nextPid := rfl
    rw [number, same]
    exact served.counted
  · intro slot inside
    rw [added_pid]
    exact served.returned slot inside

theorem Served.create {filled : Option Slot} (served : Served clients queue) (input : Call)
    (creates : input.creates = true) (result : call clients.manager input = some (next, filled)) :
    ∃ queue, Served ⟨next, filled.toList ++ clients.returned⟩ queue := by
  have outcome := creation_cases served.lined.chain served.lined.started served.lined.named
    (fun slot => served.lined.free_not_queued) creates
  rw [result] at outcome
  obtain ⟨overrun, _⟩ | ⟨_, same⟩ | ⟨slot, pcb, found, pid, ready, ended, named, same⟩ := outcome
  · cases overrun
  · cases same
    exact ⟨queue, served⟩
  · cases same
    exact ⟨_, served.place found pid ready ended named⟩

theorem Served.step {input : QueueCall} (served : ∃ queue, Served clients queue)
    (unqueued : Unqueued clients input) (taken : queueStep clients input = some after) :
    ∃ queue, Served after queue := by
  obtain ⟨queue, served⟩ := served
  cases input with
  | createProcess name entry stackTop =>
      obtain ⟨⟨next, filled⟩, result, same⟩ := Option.map_eq_some_iff.mp taken
      cases same
      exact served.create (.createProcess name entry stackTop) rfl result
  | forkProcess =>
      obtain ⟨⟨next, filled⟩, result, same⟩ := Option.map_eq_some_iff.mp taken
      cases same
      exact served.create .forkProcess rfl result
  | schedulerGetNext =>
      obtain ⟨next, result, same⟩ := Option.map_eq_some_iff.mp taken
      cases same
      exact served.schedule result
  | addToReadyQueue proc =>
      rw [queueStep] at taken
      split at taken
      case isFalse => cases taken
      case isTrue known =>
          obtain ⟨next, result, same⟩ := Option.map_eq_some_iff.mp taken
          cases same
          cases proc with
          | none =>
              cases result
              exact ⟨queue, served⟩
          | some proc =>
              obtain ⟨returned, kept⟩ := served.add (known proc rfl) unqueued
              rw [returned] at result
              cases result
              exact ⟨_, kept⟩

end

/-- As long as `add_to_ready_queue` is given no `READY` process the queue ends,
and the first one that it is given closes a cycle. -/
theorem ready_queue_ends_iff (kernelPageDir : Nat) (calls : List QueueCall) (clients : Clients)
    (unqueued : Along queueStep Unqueued (Clients.start kernelPageDir) calls)
    (reached : run queueStep (Clients.start kernelPageDir) calls = some clients) :
    QueueEnds clients.manager ∧
      ∀ input next, queueStep clients input = some next →
        (QueueEnds next.manager ↔ Unqueued clients input) := by
  have served : ∃ queue, Served clients queue :=
    run_invariant (fun clients => ∃ queue, Served clients queue) unqueued
      ⟨[], Served.start kernelPageDir⟩ (fun _ _ _ => Served.step) reached
  constructor
  · obtain ⟨queue, served⟩ := served
    exact .of_chain served.lined.chain
  · intro input next taken
    constructor
    · intro ends
      by_contra queued
      obtain ⟨queue, served⟩ := served
      cases input with
      | addToReadyQueue proc =>
          cases proc with
          | none => exact queued trivial
          | some proc =>
              have member : proc ∈ queue := by
                simp only [Unqueued, not_not] at queued
                exact served.lined.queued proc queued
              rw [queueStep] at taken
              split at taken
              case isFalse => cases taken
              case isTrue known =>
                  obtain ⟨after, result, same⟩ := Option.map_eq_some_iff.mp taken
                  cases same
                  exact addToReadyQueue_queued served.lined.chain member result ends
      | _ => exact queued trivial
    · intro fine
      obtain ⟨queue, kept⟩ := Served.step served fine taken
      exact .of_chain kept.lined.chain

theorem ready_queue_ends_iff_running :
    ∃ clients, run queueStep (Clients.start 0)
        [.createProcess [97] 4096 8192, .schedulerGetNext] = some clients ∧
      QueueEnds clients.manager ∧
      ∃ next, queueStep clients (.addToReadyQueue (some 0)) = some next ∧
        QueueEnds next.manager := by
  have along : Along queueStep Unqueued (Clients.start 0)
      [.createProcess [97] 4096 8192, .schedulerGetNext] :=
    ⟨trivial, fun _ _ => ⟨trivial, fun _ _ => trivial⟩⟩
  have both := ready_queue_ends_iff 0 [.createProcess [97] 4096 8192, .schedulerGetNext] _ along rfl
  refine ⟨_, rfl, both.1, _, rfl, (both.2 (.addToReadyQueue (some 0)) _ rfl).mpr ?_⟩
  intro ready
  cases ready

/-- `kernel_main` creates the shell and then adds it to the queue once more. -/
theorem shell_added_twice :
    ∃ clients, run queueStep (Clients.start 0)
        [.createProcess [115, 104, 101, 108, 108] 0x400000 0, .addToReadyQueue (some 0)] =
          some clients ∧
      ¬ QueueEnds clients.manager := by
  refine ⟨_, rfl, fun ends => ?_⟩
  obtain ⟨queue, chain, _⟩ := ends.chain
  exact chain.not_self (chain.mem_iff.mp (.first rfl)) rfl

end Helios.Process
