import Helios.Process.Fields

namespace Helios.Process

open Helios.Data ProcessManager

/-! Runs of the process manager.

The number of creations fixes `next_pid`; a run that stays below `2 ^ 32`
creations never hands out the number `0`, which marks a slot as unused. -/

section

variable {manager after next : ProcessManager} {queue : List Slot} {slot : Slot}
variable {input : Call} {filled : Option Slot} {calls : List Call} {count limit : Nat}

theorem enqueueProcess_nextPid (result : enqueueProcess manager slot = some after) :
    after.nextPid = manager.nextPid := by
  simp only [enqueueProcess] at result
  split at result
  · cases result
    rfl
  · split at result
    · cases result
    · cases result
      rfl

theorem dequeueProcess_nextPid : (dequeueProcess manager).1.nextPid = manager.nextPid := by
  simp only [dequeueProcess]
  split <;> rfl

theorem schedulerGetNext_nextPid (result : schedulerGetNext manager = some after) :
    after.nextPid = manager.nextPid := by
  obtain ⟨middle, requeuing, dispatched⟩ := Option.map_eq_some_iff.mp result
  subst dispatched
  have kept : middle.nextPid = manager.nextPid := by
    simp only [requeueCurrent] at requeuing
    split at requeuing
    · cases requeuing
      rfl
    · split at requeuing
      · have enqueuing := enqueueProcess_nextPid requeuing
        exact enqueuing
      · cases requeuing
        rfl
  exact dequeueProcess_nextPid.trans kept

/-- Every call counts the slots that it fills. -/
theorem call_nextPid (result : call manager input = some (next, filled)) :
    next.nextPid = if filled.isSome then u32 (manager.nextPid + 1) else manager.nextPid := by
  cases filled with
  | some slot =>
      obtain ⟨_, pcb, _, _, enqueued⟩ := call_filled result
      exact enqueueProcess_nextPid enqueued
  | none =>
      cases call_unfilled_cases result with
      | same => rfl
      | killed => rfl
      | scheduled scheduled => exact schedulerGetNext_nextPid scheduled
      | blocked found scheduled =>
          have kept := schedulerGetNext_nextPid scheduled
          exact kept
      | exited found scheduled =>
          have kept := schedulerGetNext_nextPid scheduled
          exact kept

/-- A creation takes its number below `limit`. -/
def Counted (limit : Nat) (manager : ProcessManager) (input : Call) : Prop :=
  ∀ next slot, call manager input = some (next, some slot) →
    0 < manager.nextPid ∧ manager.nextPid < limit

theorem along_counted (number : manager.nextPid = u32 (count + 1)) (small : limit ≤ 2 ^ 32)
    (bound : count + creations manager calls < limit) :
    Along step (Counted limit) manager calls := by
  induction calls generalizing manager count with
  | nil => trivial
  | cons input rest ih =>
      simp only [creations] at bound
      constructor
      · intro next slot result
        simp only [result, Option.isSome_some, if_true] at bound
        rw [number, u32, Nat.mod_eq_of_lt (by omega)]
        omega
      · intro next taken
        obtain ⟨⟨after, filled⟩, result, same⟩ := Option.map_eq_some_iff.mp taken
        cases same
        simp only [result] at bound
        have counting := call_nextPid result
        cases filled with
        | none =>
            rw [Option.isSome_none, if_neg (by simp), number] at counting
            exact ih counting (by simpa using bound)
        | some slot =>
            simp only [Option.isSome_some, if_true, number] at counting bound
            have following : after.nextPid = u32 (count + 1 + 1) := by
              rw [counting]
              simp only [u32]
              omega
            exact ih following (show count + 1 + creations after rest < limit by omega)

theorem creations_append {more : List Call} (reached : run step manager calls = some after) :
    creations manager (calls ++ more) = creations manager calls + creations after more := by
  induction calls generalizing manager with
  | nil =>
      cases reached
      simp [creations]
  | cons input rest ih =>
      cases result : call manager input with
      | none => simp [run, step, result] at reached
      | some outcome =>
          simp only [run, step, result, Option.map_some, Option.bind_some] at reached
          simp only [List.cons_append, creations, result, ih reached, Nat.add_assoc]

theorem creations_single_le : creations manager [input] ≤ 1 := by
  simp only [creations]
  split
  · simp
  · split <;> simp

/-- The invariant of runs in which nothing is killed. -/
structure Healthy (manager : ProcessManager) (queue : List Slot) : Prop
    extends Sound manager queue where
  alive : ∀ slot, manager.currentProcess = some slot → manager.state slot ≠ .terminated

theorem initProcessManager_healthy (kernelPageDir : Nat) :
    Healthy (initProcessManager kernelPageDir) [] := by
  refine ⟨initProcessManager_sound kernelPageDir, fun slot found => ?_⟩
  have same : 0 = slot := Option.some.inj found
  subst same
  simp [ProcessManager.state, initProcessManager]

/-- The current process of a healthy manager is found free only as the idle
process before the first creation. -/
theorem Healthy.current_free (healthy : Healthy manager queue)
    (found : manager.currentProcess = some slot)
    (free : isFreeSlot (manager.processTable slot) = true) : slot = 0 ∧ manager.pid 0 = 0 := by
  simp only [isFreeSlot, Bool.or_eq_true, decide_eq_true_eq] at free
  cases free with
  | inl terminated => exact absurd terminated (healthy.alive slot found)
  | inr blank =>
      by_cases same : slot = 0
      · subst same
        exact ⟨rfl, blank⟩
      · obtain ⟨absent, stopped⟩ := healthy.unused slot same blank
        cases healthy.current slot found with
        | inl running => exact absurd running stopped
        | inr rest =>
            cases rest with
            | inl terminated => exact absurd terminated (healthy.alive slot found)
            | inr first => exact absurd (List.mem_of_mem_head? first) absent

theorem Healthy.admissible (healthy : Healthy manager queue) (unkilled : input.kills = false) :
    Admissible manager input := by
  have creating : freeSlot manager = manager.currentProcess → manager.readyQueue = none := by
    intro same
    obtain ⟨current, found⟩ := healthy.started
    obtain ⟨_, blank⟩ := healthy.current_free found (freeSlot_free (same.trans found))
    have empty := (healthy.idle blank).2
    have chain := healthy.chain
    rw [empty] at chain
    exact chain
  cases input with
  | createProcess name entry stackTop => exact creating
  | forkProcess => exact creating
  | killProcess target sig => cases unkilled
  | _ => trivial

theorem Effect.healthy (healthy : Healthy manager queue)
    (effect : Effect manager queue input next filled)
    (counted : filled.isSome → manager.nextPid ≠ 0) (unkilled : input.kills = false) :
    Healthy next (advance queue (arrival manager input filled) input.reschedules) := by
  refine ⟨effect.sound healthy.toSound counted (healthy.admissible unkilled), ?_⟩
  cases effect with
  | full => exact healthy.alive
  | @filled _ taken _ creates free pid ready ended named =>
      intro slot found
      by_cases same : slot = taken
      · rw [same, ProcessManager.state, placed_same ended, ready]
        simp
      · rw [placed_state_other same]
        exact healthy.alive slot found
  | scheduled scheduled =>
      intro slot found
      have same := Option.some.inj (scheduled.current.symm.trans found)
      rw [← same, scheduled.choice_running]
      simp
  | stopped reschedules stopping found stops scheduled =>
      intro slot found
      have same := Option.some.inj (scheduled.current.symm.trans found)
      rw [← same, scheduled.choice_running]
      simp
  | killed => cases unkilled

theorem Counted.nextPid_ne_zero (counted : Counted limit manager input)
    (result : call manager input = some (next, filled)) (present : filled.isSome) :
    manager.nextPid ≠ 0 := by
  obtain ⟨slot, shape⟩ := Option.isSome_iff_exists.mp present
  subst shape
  exact Nat.pos_iff_ne_zero.mp (counted next slot result).1

theorem call_healthy (healthy : Healthy manager queue) (counted : Counted limit manager input)
    (unkilled : input.kills = false) (result : call manager input = some (next, filled)) :
    Healthy next (advance queue (arrival manager input filled) input.reschedules) :=
  (healthy.toSound.effect_of_call result).healthy healthy (counted.nextPid_ne_zero result) unkilled

theorem step_healthy (healthy : ∃ queue, Healthy manager queue)
    (fine : Counted limit manager input ∧ input.kills = false)
    (taken : step manager input = some next) : ∃ queue, Healthy next queue := by
  obtain ⟨queue, healthy⟩ := healthy
  obtain ⟨⟨after, filled⟩, result, same⟩ := Option.map_eq_some_iff.mp taken
  cases same
  exact ⟨_, call_healthy healthy fine.1 fine.2 result⟩

theorem along_unkilled {kernelPageDir : Nat} (unkilled : ∀ input ∈ calls, input.kills = false)
    (bound : creations (initProcessManager kernelPageDir) calls < 2 ^ 32) :
    Along step (fun manager input => Counted (2 ^ 32) manager input ∧ input.kills = false)
      (initProcessManager kernelPageDir) calls :=
  (along_counted (show _ = u32 (0 + 1) from rfl) le_rfl (by simpa using bound)).and
    (.of_forall fun input member _ => unkilled input member)

theorem run_healthy {kernelPageDir : Nat} (unkilled : ∀ input ∈ calls, input.kills = false)
    (bound : creations (initProcessManager kernelPageDir) calls < 2 ^ 32)
    (reached : run step (initProcessManager kernelPageDir) calls = some manager) :
    ∃ queue, Healthy manager queue :=
  run_invariant (fun manager => ∃ queue, Healthy manager queue) (along_unkilled unkilled bound)
    ⟨[], initProcessManager_healthy kernelPageDir⟩ (fun _ _ _ => step_healthy) reached

/-- A run in which nothing is killed keeps the invariant by itself. -/
theorem along_admissible {kernelPageDir : Nat} (unkilled : ∀ input ∈ calls, input.kills = false)
    (bound : creations (initProcessManager kernelPageDir) calls < 2 ^ 32) :
    Along step Admissible (initProcessManager kernelPageDir) calls := by
  refine (along_unkilled unkilled bound).imp_of_invariant
    (fun manager => ∃ queue, Healthy manager queue)
    ⟨[], initProcessManager_healthy kernelPageDir⟩ (fun _ _ _ => step_healthy) ?_
  intro manager input healthy fine
  obtain ⟨queue, healthy⟩ := healthy
  exact healthy.admissible fine.2

/-- A queued process without a successor. -/
def IsTail (manager : ProcessManager) (slot : Slot) : Prop :=
  OnChain manager.link manager.readyQueue slot ∧ manager.link slot = none

/-- A creation that turned `manager` into `next` by filling `slot` took a slot
that nobody used and disturbed no other one. -/
structure Exclusive (manager : ProcessManager) (slot : Slot) (next : ProcessManager) : Prop where
  notIdle : slot ≠ 0
  notCurrent : manager.currentProcess ≠ some slot
  notQueued : ¬ OnChain manager.link manager.readyQueue slot
  others : ∀ other, other ≠ slot → ¬ IsTail manager other →
    next.processTable other = manager.processTable other
  tail : ∀ other, other ≠ slot → IsTail manager other →
    ∃ link, next.processTable other = (manager.processTable other).setNext link

/-- A creation is exclusive exactly when `create_process_empty` does not find
slot `0` free. -/
theorem creation_exclusive_iff (kernelPageDir : Nat) (calls : List Call)
    (manager next : ProcessManager) (input : Call) (slot : Slot)
    (unkilled : ∀ input ∈ calls, input.kills = false)
    (bound : creations (initProcessManager kernelPageDir) calls < 2 ^ 32)
    (reached : run step (initProcessManager kernelPageDir) calls = some manager)
    (result : call manager input = some (next, some slot)) :
    Exclusive manager slot next ↔ isFreeSlot (manager.processTable 0) = false := by
  obtain ⟨queue, healthy⟩ := run_healthy unkilled bound reached
  have chain := healthy.chain
  cases healthy.toSound.effect_of_call result with
  | filled creates free pid ready ended named =>
      constructor
      · intro exclusive
        by_contra taken
        have first := freeSlot_zero (by simpa using taken)
        exact exclusive.notIdle (Option.some.inj (free.symm.trans first))
      · intro occupied
        have different : slot ≠ 0 := by
          intro same
          have taken := freeSlot_free free
          rw [same, occupied] at taken
          cases taken
        refine ⟨different, ?_, ?_, ?_, ?_⟩
        · intro found
          exact different (healthy.current_free found (freeSlot_free free)).1
        · rw [chain.mem_iff]
          exact healthy.toSound.lined.free_not_queued free
        · intro other apart inner
          rw [placed_other apart, if_neg]
          intro ending
          exact inner ⟨chain.mem_iff.mpr (List.mem_of_getLast? ending), chain.last_link ending⟩
        · intro other apart _
          rw [placed_other apart]
          split
          · exact ⟨_, rfl⟩
          · exact ⟨manager.link other, rfl⟩

theorem creation_exclusive_iff_after_two :
    ∃ manager next slot, run step (initProcessManager 0)
        [.createProcess [97] 4096 8192, .schedulerGetNext] = some manager ∧
      call manager .forkProcess = some (next, some slot) ∧
      (Exclusive manager slot next ↔ isFreeSlot (manager.processTable 0) = false) := by
  refine ⟨_, _, 1, rfl, rfl, ?_⟩
  exact creation_exclusive_iff 0 [.createProcess [97] 4096 8192, .schedulerGetNext] _ _ .forkProcess
    1 (by decide) (by decide) rfl rfl

/-- The first creation takes the slot of the idle process, which is current. -/
theorem first_creation_not_exclusive :
    ∃ next, call (initProcessManager 0) (.createProcess [97] 4096 8192) = some (next, some 0) ∧
      ¬ Exclusive (initProcessManager 0) 0 next :=
  ⟨_, rfl, fun exclusive => exclusive.notIdle rfl⟩

/-- Serving the head moves every other item one position forward. -/
theorem advance_forward {arriving : Option Slot} {position : Nat}
    (there : queue[position + 1]? = some slot) :
    (advance queue arriving true)[position]? = some slot := by
  simp only [advance, if_true, List.getElem?_tail]
  exact List.getElem?_append_left (List.getElem?_eq_some_iff.mp there).1 ▸ there

/-- An item that was not behind the head arrived at the tail. -/
theorem advance_backward {arriving : Option Slot} {position : Nat}
    (there : (advance queue arriving true)[position]? = some slot) :
    queue[position + 1]? = some slot ∨
      (arriving = some slot ∧ position + 1 = (advance queue arriving true).length) := by
  simp only [advance, if_true, List.getElem?_tail] at there ⊢
  by_cases inside : position + 1 < queue.length
  · rw [List.getElem?_append_left inside] at there
    exact .inl there
  · rw [List.getElem?_append_right (by omega)] at there
    cases arriving with
    | none => simp at there
    | some arrived =>
        have last : position + 1 - queue.length = 0 := by
          have short := (List.getElem?_eq_some_iff.mp there).1
          simp only [Option.toList_some, List.length_singleton] at short
          omega
        rw [last] at there
        refine .inr ⟨by simpa using there, ?_⟩
        simp only [Option.toList_some, List.length_tail, List.length_append, List.length_singleton]
        omega

theorem Sound.arrival_fresh (sound : Sound manager queue)
    (effect : Effect manager queue input next filled)
    (arriving : arrival manager input filled = some slot) : slot ∉ queue := by
  cases effect with
  | full creates taken =>
      cases input with
      | createProcess name entry stackTop => cases arriving
      | forkProcess => cases arriving
      | _ => cases creates
  | @filled _ taken _ creates free pid ready ended named =>
      have same : some taken = some slot := by
        cases input with
        | createProcess name entry stackTop => exact arriving
        | forkProcess => exact arriving
        | _ => cases creates
      cases same
      exact sound.lined.free_not_queued free
  | scheduled scheduled =>
      have active : manager.state slot = .running := by
        simpa using (Option.filter_eq_some_iff.mp arriving).2
      exact sound.toSettling.current_not_mem active
  | stopped reschedules stopping found stops scheduled =>
      cases input with
      | schedulerGetNext => exact absurd rfl stopping
      | _ => cases arriving
  | killed => cases arriving

/-- The ready queue is a first-in first-out queue of the ready processes: every
call returns, a creation appends at the tail, and each reschedule serves the
head and moves whoever stays queued one position forward. -/
theorem ready_queue_fifo (kernelPageDir : Nat) (calls : List Call)
    (unkilled : ∀ input ∈ calls, input.kills = false)
    (fitting : ∀ input ∈ calls, input.fits = true)
    (bound : creations (initProcessManager kernelPageDir) calls < 2 ^ 32 - 1) :
    ∃ manager queue, run step (initProcessManager kernelPageDir) calls = some manager ∧
      Chain manager.link manager.readyQueue queue ∧ queue.Nodup ∧
      (∀ slot, slot ∈ queue ↔ manager.state slot = .ready) ∧
      ∀ input, input.kills = false → input.fits = true →
        ∃ next filled after, call manager input = some (next, filled) ∧
          Chain next.link next.readyQueue after ∧
          (input.reschedules = false → after = queue ++ filled.toList) ∧
          (input.reschedules = true →
            (∀ position slot, queue[position + 1]? = some slot → after[position]? = some slot) ∧
            ∀ position slot, after[position]? = some slot →
              queue[position + 1]? = some slot ∨ (slot ∉ queue ∧ position + 1 = after.length)) := by
  obtain ⟨manager, reached, queue, healthy⟩ := run_total
    (fun manager => ∃ queue, Healthy manager queue)
    ((along_unkilled unkilled (by omega)).and (.of_forall fun input member _ => fitting input member))
    ⟨[], initProcessManager_healthy kernelPageDir⟩ (by
      intro manager input healthy fine
      obtain ⟨queue, sound⟩ := healthy
      obtain ⟨next, filled, result⟩ := sound.toSound.returns fine.2
      have taken : step manager input = some next := by simp [step, result]
      exact ⟨next, taken, step_healthy ⟨queue, sound⟩ fine.1 taken⟩)
  refine ⟨manager, queue, reached, healthy.chain, healthy.chain.nodup, healthy.toSound.ready_iff, ?_⟩
  intro input alive fits
  obtain ⟨next, filled, result⟩ := healthy.toSound.returns fits
  have effect := healthy.toSound.effect_of_call result
  have longer : Along step (Counted (2 ^ 32)) (initProcessManager kernelPageDir)
      (calls ++ [input]) := by
    refine along_counted (show _ = u32 (0 + 1) from rfl) le_rfl ?_
    have single : creations manager [input] ≤ 1 := creations_single_le
    rw [creations_append reached]
    omega
  have here : Counted (2 ^ 32) manager input := (along_append longer reached).2.1
  have following := call_healthy healthy here alive result
  refine ⟨next, filled, _, result, following.chain, ?_, ?_⟩
  · intro creating
    rw [creating]
    cases input with
    | schedulerGetNext => cases creating
    | _ => rfl
  · intro serving
    rw [serving]
    refine ⟨fun position slot => advance_forward, fun position slot there => ?_⟩
    cases advance_backward there with
    | inl before => exact .inl before
    | inr arrived =>
        exact .inr ⟨healthy.toSound.arrival_fresh effect arrived.1, arrived.2⟩

theorem ready_queue_fifo_after_two :
    ∃ manager queue, run step (initProcessManager 0)
        [.createProcess [97] 4096 8192, .forkProcess] = some manager ∧
      Chain manager.link manager.readyQueue queue := by
  obtain ⟨manager, queue, reached, chain, _⟩ := ready_queue_fifo 0
    [.createProcess [97] 4096 8192, .forkProcess] (by decide) (by decide) (by decide)
  exact ⟨manager, queue, reached, chain⟩

end

end Helios.Process
