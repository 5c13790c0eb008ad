import Helios.Process.Queue

namespace Helios.Process

open Helios.Data ProcessManager

/-! The invariant of the process table.

`Settling` is what holds when the current process has been stopped but
`scheduler_get_next` has not run yet; `Sound` holds between calls. -/

structure Settling (manager : ProcessManager) (queue : List Slot) : Prop where
  chain : Chain manager.link manager.readyQueue queue
  queued : ∀ slot, manager.state slot = .ready → slot ∈ queue
  waiting : ∀ slot ∈ queue, manager.state slot = .ready ∨
    (queue.head? = some slot ∧ manager.state slot ≠ .running)
  running : ∀ slot, manager.state slot = .running → manager.currentProcess = some slot
  started : ∃ current, manager.currentProcess = some current
  unused : ∀ slot, slot ≠ 0 → manager.pid slot = 0 →
    slot ∉ queue ∧ manager.state slot ≠ .running
  idle : manager.pid 0 = 0 → manager.currentProcess = some 0 ∧ queue = []
  named : ∀ slot, (copyName (manager.processTable slot).name).isSome

/-- Every queued process is ready, wherever the current process is. -/
structure Lined (manager : ProcessManager) (queue : List Slot) : Prop
    extends Settling manager queue where
  ready : ∀ slot ∈ queue, manager.state slot = .ready

structure Sound (manager : ProcessManager) (queue : List Slot) : Prop
    extends Settling manager queue where
  ready : ∀ slot ∈ queue, manager.state slot = .ready
  current : ∀ slot, manager.currentProcess = some slot →
    manager.state slot = .running ∨ manager.state slot = .terminated ∨ queue.head? = some slot

section

variable {manager after : ProcessManager} {queue : List Slot} {slot : Slot}

theorem Sound.lined (sound : Sound manager queue) : Lined manager queue :=
  ⟨sound.toSettling, sound.ready⟩

theorem Sound.ready_iff (sound : Sound manager queue) (slot : Slot) :
    slot ∈ queue ↔ manager.state slot = .ready :=
  ⟨sound.ready slot, sound.queued slot⟩

theorem initProcessManager_sound (kernelPageDir : Nat) :
    Sound (initProcessManager kernelPageDir) [] := by
  have others : ∀ slot, slot ≠ 0 →
      (initProcessManager kernelPageDir).processTable slot = {} := by
    intro slot different
    simp [initProcessManager, different]
  have states : ∀ slot, slot ≠ 0 → (initProcessManager kernelPageDir).state slot = .new := by
    intro slot different
    simp [ProcessManager.state, others slot different]
  have idleState : (initProcessManager kernelPageDir).state 0 = .running := by
    simp [ProcessManager.state, initProcessManager]
  have onlyIdle : ∀ slot, (initProcessManager kernelPageDir).state slot = .running → slot = 0 := by
    intro slot running
    by_cases same : slot = 0
    · exact same
    · rw [states slot same] at running
      cases running
  refine
    { chain := rfl
      queued := ?_
      waiting := by simp
      running := fun slot active => by rw [onlyIdle slot active]; rfl
      started := ⟨0, rfl⟩
      unused := fun slot different _ => by simp [states slot different]
      idle := fun _ => ⟨rfl, rfl⟩
      named := ?_
      ready := by simp
      current := ?_ }
  · intro slot ready
    by_cases same : slot = 0
    · rw [same, idleState] at ready
      cases ready
    · rw [states slot same] at ready
      cases ready
  · intro slot
    by_cases same : slot = 0
    · subst same
      simp [initProcessManager, copyName, idleName]
    · simp [others slot same, copyName]
  · intro slot found
    have same : 0 = slot := Option.some.inj found
    subst same
    exact .inl idleState

theorem mem_requeued : slot ∈ requeued manager queue ↔
    slot ∈ queue ∨ (manager.currentProcess = some slot ∧ manager.state slot = .running) := by
  cases found : manager.currentProcess with
  | none => simp [requeued, found]
  | some current =>
      by_cases active : manager.state current = .running
      · simp only [requeued, found, active, if_true, List.mem_append, List.mem_singleton,
          Option.some.injEq]
        constructor
        · intro member
          cases member with
          | inl inside => exact .inl inside
          | inr same => exact .inr ⟨same.symm, same ▸ active⟩
        · intro member
          cases member with
          | inl inside => exact .inl inside
          | inr last => exact .inr last.1.symm
      · simp only [requeued, found, active, if_false, Option.some.injEq]
        constructor
        · exact .inl
        · intro member
          cases member with
          | inl inside => exact inside
          | inr last => exact absurd (last.1 ▸ last.2) active

theorem requeued_of_not_running
    (stopped : ∀ current, manager.currentProcess = some current →
      manager.state current ≠ .running) : requeued manager queue = queue := by
  cases found : manager.currentProcess with
  | none => simp [requeued, found]
  | some current => simp [requeued, found, stopped current found]

/-- The head of the queue stays first when the current process is put behind it. -/
theorem selected_of_head (first : queue.head? = some slot) : selected manager queue = slot := by
  obtain ⟨rest, shape⟩ := List.head?_eq_some_iff.mp first
  subst shape
  simp only [selected, requeued]
  split
  · rfl
  · split <;> rfl

theorem requeued_nodup (distinct : queue.Nodup)
    (apart : ∀ current, manager.currentProcess = some current →
      manager.state current = .running → current ∉ queue) : (requeued manager queue).Nodup := by
  cases found : manager.currentProcess with
  | none => simpa [requeued, found] using distinct
  | some current =>
      by_cases active : manager.state current = .running
      · have absent := apart current found active
        simp only [requeued, found, active, if_true]
        refine List.nodup_append.mpr ⟨distinct, by simp, ?_⟩
        intro item member other single same
        rw [List.mem_singleton.mp single] at same
        exact absent (same ▸ member)
      · simpa [requeued, found, active] using distinct

theorem requeued_cases (distinct : (requeued manager queue).Nodup) :
    requeued manager queue = [] ∧ selected manager queue = 0 ∨
      requeued manager queue = selected manager queue :: (requeued manager queue).tail ∧
        selected manager queue ∉ (requeued manager queue).tail := by
  cases shape : requeued manager queue with
  | nil => exact .inl ⟨rfl, by simp [selected, shape]⟩
  | cons head rest =>
      rw [shape] at distinct
      have chosen : selected manager queue = head := by simp [selected, shape]
      rw [chosen]
      exact .inr ⟨rfl, (List.nodup_cons.mp distinct).1⟩

namespace Settling

variable (settling : Settling manager queue)

include settling

theorem current_not_mem {current : Slot} (active : manager.state current = .running) :
    current ∉ queue := by
  intro member
  cases settling.waiting current member with
  | inl ready => rw [active] at ready; cases ready
  | inr first => exact first.2 active

theorem selection :
    requeued manager queue = [] ∧ selected manager queue = 0 ∨
      requeued manager queue = selected manager queue :: (requeued manager queue).tail ∧
        selected manager queue ∉ (requeued manager queue).tail :=
  requeued_cases (requeued_nodup settling.chain.nodup
    fun _ _ active => settling.current_not_mem active)

theorem mem_tail : slot ∈ (requeued manager queue).tail ↔
    slot ∈ requeued manager queue ∧ slot ≠ selected manager queue := by
  cases settling.selection with
  | inl empty => simp [empty.1]
  | inr shape =>
      obtain ⟨shape, fresh⟩ := shape
      rw [shape, List.mem_cons, List.tail_cons]
      constructor
      · intro member
        exact ⟨.inr member, fun same => fresh (same ▸ member)⟩
      · intro member
        exact member.1.resolve_left member.2

/-- The slots that are ready once the scheduler has chosen are those left in
the queue. -/
theorem scheduled_ready_iff :
    scheduledState manager queue slot = .ready ↔ slot ∈ (requeued manager queue).tail := by
  rw [settling.mem_tail, mem_requeued, scheduledState]
  by_cases chosen : slot = selected manager queue
  · simp [chosen]
  · by_cases active : manager.currentProcess = some slot ∧ manager.state slot = .running
    · simp [chosen, active]
    · simp only [chosen, active, if_false, or_false, ne_eq, not_false_eq_true, and_true]
      constructor
      · exact settling.queued slot
      · intro member
        cases settling.waiting slot member with
        | inl ready => exact ready
        | inr first => exact absurd (selected_of_head first.1).symm chosen

theorem scheduled_running (active : scheduledState manager queue slot = .running) :
    slot = selected manager queue := by
  rw [scheduledState] at active
  split at active
  · assumption
  · split at active
    · cases active
    · rename_i stopped
      exact absurd ⟨settling.running slot active, active⟩ stopped

theorem selected_used (different : selected manager queue ≠ 0) :
    manager.pid (selected manager queue) ≠ 0 := by
  intro blank
  obtain ⟨absent, stopped⟩ := settling.unused _ different blank
  cases settling.selection with
  | inl empty => exact different empty.2
  | inr shape =>
      have member : selected manager queue ∈ requeued manager queue := by
        rw [shape.1]
        exact List.mem_cons_self
      cases mem_requeued.mp member with
      | inl inside => exact absent inside
      | inr last => exact stopped last.2

theorem schedule :
    ∃ after, schedulerGetNext manager = some after ∧ Scheduled manager queue after :=
  schedulerGetNext_spec settling.chain fun _ _ active => settling.current_not_mem active

/-- `scheduler_get_next` restores the invariant. -/
theorem scheduled_sound (scheduled : Scheduled manager queue after) :
    Sound after (requeued manager queue).tail := by
  have readyIff : ∀ slot, after.state slot = .ready ↔ slot ∈ (requeued manager queue).tail := by
    intro slot
    rw [scheduled.state_eq]
    exact settling.scheduled_ready_iff
  have choice := scheduled.choice_running
  have onlyChoice : ∀ slot, after.state slot = .running → slot = selected manager queue := by
    intro slot active
    rw [scheduled.state_eq] at active
    exact settling.scheduled_running active
  refine
    { chain := scheduled.chain
      queued := fun slot => (readyIff slot).mp
      waiting := fun slot member => .inl ((readyIff slot).mpr member)
      running := fun slot active => by rw [scheduled.current, onlyChoice slot active]
      started := ⟨_, scheduled.current⟩
      unused := ?_
      idle := ?_
      named := fun slot => by simpa [scheduled.pcb] using settling.named slot
      ready := fun slot => (readyIff slot).mpr
      current := ?_ }
  · intro slot different blank
    rw [scheduled.pid_eq] at blank
    obtain ⟨absent, stopped⟩ := settling.unused slot different blank
    constructor
    · intro member
      cases mem_requeued.mp (List.mem_of_mem_tail member) with
      | inl inside => exact absent inside
      | inr last => exact stopped last.2
    · intro active
      have same := onlyChoice slot active
      subst same
      exact settling.selected_used different blank
  · intro blank
    rw [scheduled.pid_eq] at blank
    obtain ⟨current, empty⟩ := settling.idle blank
    subst empty
    rw [scheduled.current]
    by_cases active : manager.state 0 = .running <;> simp [selected, requeued, current, active]
  · intro slot found
    have same : selected manager queue = slot := Option.some.inj (scheduled.current.symm.trans found)
    exact .inl (same ▸ choice)

end Settling

theorem Sound.current_first (sound : Sound manager queue)
    (found : manager.currentProcess = some slot) (member : slot ∈ queue) :
    queue.head? = some slot := by
  have ready := sound.ready slot member
  cases sound.current slot found with
  | inl running => rw [ready] at running; cases running
  | inr other =>
      cases other with
      | inl terminated => rw [ready] at terminated; cases terminated
      | inr first => exact first

/-- A change that takes a process out of scheduling and leaves its identity. -/
structure Stops (change : Pcb → Pcb) : Prop where
  next : ∀ pcb, (change pcb).next = pcb.next
  pid : ∀ pcb, (change pcb).pid = pcb.pid
  name : ∀ pcb, (change pcb).name = pcb.name
  state : ∀ pcb, (change pcb).state = .blocked ∨ (change pcb).state = .terminated

theorem setState_stops {state : ProcessState} (stopped : state = .blocked ∨ state = .terminated) :
    Stops (Pcb.setState state) :=
  ⟨fun _ => rfl, fun _ => rfl, fun _ => rfl, fun _ => stopped⟩

theorem Stops.not_ready {change : Pcb → Pcb} (stops : Stops change) (pcb : Pcb) :
    (change pcb).state ≠ .ready ∧ (change pcb).state ≠ .running := by
  cases stops.state pcb with
  | inl blocked => simp [blocked]
  | inr terminated => simp [terminated]

theorem Stops.pid_update {change : Pcb → Pcb} (stops : Stops change) (manager : ProcessManager)
    (victim slot : Slot) : (manager.update victim change).pid slot = manager.pid slot := by
  by_cases same : slot = victim
  · subst same
    simp [ProcessManager.pid, stops.pid]
  · simp [ProcessManager.pid, update_other same]

/-- Stopping a process that is not waiting behind another one: what
`exit_process`, `wait_process` and `sleep_process` do to the current process
before they reschedule, and what `kill_process` does. -/
theorem Sound.stop {victim : Slot} {change : Pcb → Pcb} (sound : Sound manager queue)
    (place : victim ∈ queue → queue.head? = some victim) (stops : Stops change) :
    Settling (manager.update victim change) queue := by
  have links : (manager.update victim change).link = manager.link := by
    funext slot
    by_cases same : slot = victim
    · subst same
      simp [link, stops.next]
    · exact link_update_other same
  have pids := stops.pid_update manager victim
  have states : ∀ slot, slot ≠ victim →
      (manager.update victim change).state slot = manager.state slot := by
    intro slot different
    simp [ProcessManager.state, update_other different]
  have here : (manager.update victim change).state victim ≠ .ready ∧
      (manager.update victim change).state victim ≠ .running := by
    simpa [ProcessManager.state] using stops.not_ready _
  have active : ∀ slot, (manager.update victim change).state slot = .running →
      manager.state slot = .running := by
    intro slot running
    by_cases same : slot = victim
    · exact absurd (same ▸ running) here.2
    · rwa [states slot same] at running
  exact
    { chain := by rw [links]; exact sound.chain
      queued := by
        intro slot ready
        by_cases same : slot = victim
        · exact absurd (same ▸ ready) here.1
        · rw [states slot same] at ready
          exact sound.queued slot ready
      waiting := by
        intro slot member
        by_cases same : slot = victim
        · subst same
          exact .inr ⟨place member, here.2⟩
        · rw [states slot same]
          exact .inl (sound.ready slot member)
      running := fun slot running => sound.running slot (active slot running)
      started := sound.started
      unused := by
        intro slot different blank
        rw [pids] at blank
        obtain ⟨absent, still⟩ := sound.unused slot different blank
        exact ⟨absent, fun running => still (active slot running)⟩
      idle := fun blank => sound.idle (by rwa [pids] at blank)
      named := by
        intro slot
        by_cases same : slot = victim
        · subst same
          simpa [stops.name] using sound.named slot
        · simpa [update_other same] using sound.named slot }

end

end Helios.Process
