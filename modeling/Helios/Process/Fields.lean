import Helios.Process.Calls

namespace Helios.Process

open Helios.Data ProcessManager

/-! The fields of a control block that scheduling leaves alone, and the slots
that scheduling can reach. -/

/-- What `field` reads is not changed by the queue, a state or an exit. -/
structure Aside {β : Type} (field : Pcb → β) : Prop where
  setNext : ∀ pcb next, field (Pcb.setNext next pcb) = field pcb
  setState : ∀ pcb state, field (Pcb.setState state pcb) = field pcb
  exit : ∀ pcb exitCode, field { pcb with exitCode, state := .terminated } = field pcb

/-- A slot that a pointer of the manager leads to, or the slot of the idle process. -/
def Pointed (manager : ProcessManager) (slot : Slot) : Prop :=
  slot = 0 ∨ manager.currentProcess = some slot ∨ manager.readyQueue = some slot ∨
    ∃ other, manager.link other = some slot

section

variable {β : Type} {field : Pcb → β} {manager middle next : ProcessManager} {slot proc : Slot}
variable {change : Pcb → Pcb} {input : Call} {filled : Option Slot}

theorem update_aside (kept : ∀ pcb, field (change pcb) = field pcb) (slot other : Slot) :
    field ((manager.update slot change).processTable other) = field (manager.processTable other) := by
  by_cases same : other = slot
  · subst same
    rw [update_same, kept]
  · rw [update_other same]

theorem enqueueProcess_aside (aside : Aside field) (result : enqueueProcess manager proc = some next)
    (slot : Slot) : field (next.processTable slot) = field (manager.processTable slot) := by
  simp only [enqueueProcess] at result
  split at result
  · cases result
    exact update_aside (fun pcb => aside.setNext pcb _) proc slot
  · split at result
    · cases result
    · cases result
      rw [update_aside fun pcb => aside.setNext pcb _]
      exact update_aside (fun pcb => aside.setNext pcb _) proc slot

theorem dispatch_field (setNext : ∀ pcb next, field (Pcb.setNext next pcb) = field pcb)
    (setState : ∀ pcb state, field (Pcb.setState state pcb) = field pcb) (slot : Slot) :
    field ((dispatch manager).processTable slot) = field (manager.processTable slot) := by
  simp only [dispatch]
  rw [update_aside fun pcb => setState pcb _, dequeueProcess]
  split
  · rfl
  · exact update_aside (fun pcb => setNext pcb _) _ slot

theorem dispatch_state : (dispatch manager).state slot =
    if slot = manager.readyQueue.getD 0 then .running else manager.state slot := by
  cases queue : manager.readyQueue with
  | none =>
      simp only [dispatch, dequeueProcess, queue, Option.getD_none, ProcessManager.state]
      split
      · rename_i same
        rw [same, update_same, setState_state]
      · rename_i different
        rw [update_other different]
  | some head =>
      simp only [dispatch, dequeueProcess, queue, Option.getD_some, ProcessManager.state]
      split
      · rename_i same
        rw [same, update_same, setState_state]
      · rename_i different
        rw [update_other different, update_other different]

theorem schedulerGetNext_aside (aside : Aside field) (result : schedulerGetNext manager = some next)
    (slot : Slot) : field (next.processTable slot) = field (manager.processTable slot) := by
  obtain ⟨middle, requeuing, dispatched⟩ := Option.map_eq_some_iff.mp result
  subst dispatched
  rw [dispatch_field aside.setNext aside.setState]
  simp only [requeueCurrent] at requeuing
  split at requeuing
  · cases requeuing
    rfl
  · split at requeuing
    · rw [enqueueProcess_aside aside requeuing]
      exact update_aside (fun pcb => aside.setState pcb _) _ slot
    · cases requeuing
      rfl

theorem stop_aside (aside : Aside field) (kept : ∀ pcb, field (change pcb) = field pcb)
    (result : schedulerGetNext (manager.update proc change) = some next) (slot : Slot) :
    field (next.processTable slot) = field (manager.processTable slot) := by
  rw [schedulerGetNext_aside aside result]
  exact update_aside kept proc slot

/-- The control block that a call fills a slot with. -/
def Filling (manager : ProcessManager) (slot : Slot) (input : Call) (pcb : Pcb) : Prop :=
  (∃ name entry stackTop text pageDir, input = .createProcess name entry stackTop ∧
    pcb = createPcb text entry stackTop pageDir (emptyPcb manager.nextPid)) ∨
  ∃ current text, input = .forkProcess ∧ manager.currentProcess = some current ∧
    pcb = forkPcb ((clearSlot manager slot).processTable current) current text
      (emptyPcb manager.nextPid)

/-- A call that fills a slot puts a new control block into it, which shares the
page directory of the current process, and enqueues it. -/
theorem call_filled (result : call manager input = some (next, some slot)) :
    freeSlot manager = some slot ∧ ∃ pcb, Filling manager slot input pcb ∧
      (∀ current, manager.currentProcess = some current →
        pcb.pageDir = ((clearSlot manager slot).processTable current).pageDir) ∧
      enqueueProcess ((clearSlot manager slot).update slot fun _ => pcb) slot = some next := by
  cases input with
  | createProcess name entry stackTop =>
      cases free : freeSlot manager with
      | none => simp [call, createProcess, createProcessEmpty, free] at result
      | some taken =>
          cases copied : copyName name with
          | none => simp [call, createProcess, createProcessEmpty, free, copied] at result
          | some text =>
              simp only [call, createProcess, createProcessEmpty, free, Option.map_some,
                copied] at result
              obtain ⟨after, enqueued, same⟩ := Option.map_eq_some_iff.mp result
              cases same
              rw [clearSlot_update] at enqueued
              refine ⟨rfl, _, .inl ⟨name, entry, stackTop, text, _, rfl, rfl⟩, ?_, enqueued⟩
              intro current found
              have cleared : (clearSlot manager slot).currentProcess = some current := found
              simp only [createPcb, cleared]
  | forkProcess =>
      cases found : manager.currentProcess with
      | none => simp [call, forkProcess, found] at result
      | some current =>
          cases free : freeSlot manager with
          | none => simp [call, forkProcess, createProcessEmpty, free, found] at result
          | some taken =>
              cases copied : copyName ((clearSlot manager taken).processTable current).name with
              | none =>
                  simp [call, forkProcess, createProcessEmpty, free, found, copied] at result
              | some text =>
                  simp only [call, forkProcess, createProcessEmpty, free, found, Option.map_some,
                    copied] at result
                  obtain ⟨after, enqueued, same⟩ := Option.map_eq_some_iff.mp result
                  cases same
                  rw [clearSlot_update] at enqueued
                  refine ⟨rfl, _, .inr ⟨current, text, rfl, found, rfl⟩, ?_, enqueued⟩
                  intro same itsCurrent
                  cases itsCurrent
                  rfl
  | exitProcess exitCode =>
      obtain ⟨after, _, same⟩ := Option.map_eq_some_iff.mp result
      cases same
  | waitProcess pid =>
      obtain ⟨after, _, same⟩ := Option.map_eq_some_iff.mp result
      cases same
  | sleepProcess ms =>
      obtain ⟨after, _, same⟩ := Option.map_eq_some_iff.mp result
      cases same
  | killProcess target sig => cases result
  | schedulerGetNext =>
      obtain ⟨after, _, same⟩ := Option.map_eq_some_iff.mp result
      cases same

/-- What a call can do that fills no slot. -/
inductive Unfilled (manager : ProcessManager) : ProcessManager → Prop
  | same : Unfilled manager manager
  | killed {slot : Slot} : Unfilled manager (manager.update slot (Pcb.setState .terminated))
  | scheduled {next : ProcessManager} (result : schedulerGetNext manager = some next) :
      Unfilled manager next
  | blocked {current : Slot} {next : ProcessManager} (found : manager.currentProcess = some current)
      (result : schedulerGetNext (manager.update current (Pcb.setState .blocked)) = some next) :
      Unfilled manager next
  | exited {current : Slot} {exitCode : Int} {next : ProcessManager}
      (found : manager.currentProcess = some current)
      (result : schedulerGetNext (manager.update current fun pcb =>
        { pcb with exitCode, state := .terminated }) = some next) : Unfilled manager next

theorem blockCurrent_unfilled (result : blockCurrent manager = some next) : Unfilled manager next := by
  cases found : manager.currentProcess with
  | none => simp [blockCurrent, found] at result
  | some current =>
      simp only [blockCurrent, found] at result
      exact .blocked found result

theorem call_unfilled_cases (result : call manager input = some (next, none)) :
    Unfilled manager next := by
  cases input with
  | createProcess name entry stackTop =>
      simp only [call, createProcess] at result
      split at result
      · cases result
        exact .same
      · split at result
        · cases result
        · obtain ⟨after, _, same⟩ := Option.map_eq_some_iff.mp result
          cases same
  | forkProcess =>
      simp only [call, forkProcess] at result
      split at result
      · cases result
        exact .same
      · split at result
        · cases result
          exact .same
        · split at result
          · cases result
          · obtain ⟨after, _, same⟩ := Option.map_eq_some_iff.mp result
            cases same
  | exitProcess exitCode =>
      obtain ⟨after, exited, same⟩ := Option.map_eq_some_iff.mp result
      cases same
      cases found : manager.currentProcess with
      | none =>
          simp only [exitProcess, found, Option.some.injEq] at exited
          exact exited ▸ .same
      | some current =>
          simp only [exitProcess, found] at exited
          exact .exited found exited
  | waitProcess pid =>
      obtain ⟨after, blocked, same⟩ := Option.map_eq_some_iff.mp result
      cases same
      exact blockCurrent_unfilled blocked
  | sleepProcess ms =>
      obtain ⟨after, blocked, same⟩ := Option.map_eq_some_iff.mp result
      cases same
      exact blockCurrent_unfilled blocked
  | killProcess target sig =>
      cases result
      simp only [killProcess]
      split
      · exact .same
      · exact .killed
  | schedulerGetNext =>
      obtain ⟨after, scheduled, same⟩ := Option.map_eq_some_iff.mp result
      cases same
      exact .scheduled scheduled

theorem filled_aside (aside : Aside field) (result : call manager input = some (next, some slot)) :
    ∃ pcb, Filling manager slot input pcb ∧ field (next.processTable slot) = field pcb := by
  obtain ⟨_, pcb, filling, _, enqueued⟩ := call_filled result
  refine ⟨pcb, filling, ?_⟩
  rw [enqueueProcess_aside aside enqueued, update_same]

/-- A call changes the field in no slot but the one it fills. -/
theorem call_aside (aside : Aside field) (result : call manager input = some (next, filled))
    (other : Slot) (different : filled ≠ some other) :
    field (next.processTable other) = field (manager.processTable other) := by
  cases filled with
  | some slot =>
      have apart : other ≠ slot := fun same => different (same ▸ rfl)
      obtain ⟨_, pcb, _, _, enqueued⟩ := call_filled result
      rw [enqueueProcess_aside aside enqueued, update_other apart, clearSlot, update_other apart]
  | none =>
      cases call_unfilled_cases result with
      | same => rfl
      | killed => exact update_aside (fun pcb => aside.setState pcb _) _ other
      | scheduled result => exact schedulerGetNext_aside aside result other
      | blocked _ result => exact stop_aside aside (fun pcb => aside.setState pcb _) result other
      | exited _ result => exact stop_aside aside (fun pcb => aside.exit pcb _) result other

/-- Changing a control block can lead only to where its new link does. -/
theorem update_pointed (pointed : Pointed (manager.update proc change) slot) :
    Pointed manager slot ∨ (change (manager.processTable proc)).next = some slot := by
  obtain zero | current | ready | ⟨other, linked⟩ := pointed
  · exact .inl (.inl zero)
  · exact .inl (.inr (.inl current))
  · exact .inl (.inr (.inr (.inl ready)))
  · by_cases same : other = proc
    · subst same
      rw [link, update_same] at linked
      exact .inr linked
    · rw [link_update_other same] at linked
      exact .inl (.inr (.inr (.inr ⟨other, linked⟩)))

theorem setState_pointed {state : ProcessState}
    (pointed : Pointed (manager.update proc (Pcb.setState state)) slot) : Pointed manager slot := by
  cases update_pointed pointed with
  | inl before => exact before
  | inr linked => exact .inr (.inr (.inr ⟨proc, linked⟩))

theorem enqueueProcess_pointed (result : enqueueProcess manager proc = some next)
    (pointed : Pointed next slot) : Pointed manager slot ∨ slot = proc := by
  have cleared : Pointed (manager.update proc (Pcb.setNext none)) slot → Pointed manager slot :=
    fun pointed => (update_pointed pointed).resolve_right nofun
  simp only [enqueueProcess] at result
  split at result
  · cases result
    obtain zero | current | ready | linked := pointed
    · exact .inl (.inl zero)
    · exact .inl (cleared (.inr (.inl current)))
    · exact .inr (Option.some.inj ready).symm
    · exact .inl (cleared (.inr (.inr (.inr linked))))
  · split at result
    · cases result
    · cases result
      cases update_pointed pointed with
      | inl before => exact .inl (cleared before)
      | inr linked => exact .inr (Option.some.inj linked).symm

theorem dispatch_pointed (pointed : Pointed (dispatch manager) slot) : Pointed manager slot := by
  obtain zero | current | ready | ⟨other, linked⟩ := pointed
  · exact .inl zero
  · cases queue : manager.readyQueue with
    | none =>
        simp only [dispatch, dequeueProcess, queue, Option.getD_none] at current
        exact .inl (Option.some.inj current).symm
    | some head =>
        simp only [dispatch, dequeueProcess, queue, Option.getD_some] at current
        exact .inr (.inr (.inl (queue.trans current)))
  · cases queue : manager.readyQueue with
    | none => simp [dispatch, dequeueProcess, queue, update] at ready
    | some head =>
        simp only [dispatch, dequeueProcess, queue, update] at ready
        exact .inr (.inr (.inr ⟨head, ready⟩))
  · have kept : (dequeueProcess manager).1.link other = some slot := by
      have same : (dispatch manager).link = (dequeueProcess manager).1.link := link_setState
      rwa [same] at linked
    simp only [dequeueProcess] at kept
    split at kept
    · exact .inr (.inr (.inr ⟨other, kept⟩))
    · rename_i head queue
      by_cases same : other = head
      · subst same
        rw [link, update_same] at kept
        cases kept
      · rw [link_update_other same] at kept
        exact .inr (.inr (.inr ⟨other, kept⟩))

theorem schedulerGetNext_pointed (result : schedulerGetNext manager = some next)
    (pointed : Pointed next slot) : Pointed manager slot := by
  obtain ⟨middle, requeuing, dispatched⟩ := Option.map_eq_some_iff.mp result
  subst dispatched
  have before := dispatch_pointed pointed
  simp only [requeueCurrent] at requeuing
  split at requeuing
  · cases requeuing
    exact before
  · rename_i current found
    split at requeuing
    · cases enqueueProcess_pointed requeuing before with
      | inl earlier => exact setState_pointed earlier
      | inr same => exact .inr (.inl (same ▸ found))
    · cases requeuing
      exact before

/-- A call leads to no slot but the one it fills. -/
theorem call_pointed (result : call manager input = some (next, filled))
    (pointed : Pointed next slot) : Pointed manager slot ∨ filled = some slot := by
  cases filled with
  | some taken =>
      obtain ⟨_, pcb, filling, _, enqueued⟩ := call_filled result
      have unlinked : pcb.next = none := by
        obtain ⟨_, _, _, _, _, _, same⟩ | ⟨_, _, _, _, same⟩ := filling
        · rw [same]; rfl
        · rw [same]; rfl
      cases enqueueProcess_pointed enqueued pointed with
      | inr same => exact .inr (congrArg some same.symm)
      | inl before =>
          have cleared := (update_pointed before).resolve_right (by simp [unlinked])
          exact .inl ((update_pointed cleared).resolve_right nofun)
  | none =>
      left
      cases call_unfilled_cases result with
      | same => exact pointed
      | killed => exact setState_pointed pointed
      | scheduled result => exact schedulerGetNext_pointed result pointed
      | blocked _ result => exact setState_pointed (schedulerGetNext_pointed result pointed)
      | @exited current _ _ _ result =>
          cases update_pointed (schedulerGetNext_pointed result pointed) with
          | inl before => exact before
          | inr linked => exact .inr (.inr (.inr ⟨current, linked⟩))

theorem enqueueProcess_current (result : enqueueProcess manager proc = some next) :
    next.currentProcess = manager.currentProcess := by
  simp only [enqueueProcess] at result
  split at result
  · cases result
    rfl
  · split at result
    · cases result
    · cases result
      rfl

theorem call_started {current : Slot} (started : manager.currentProcess = some current)
    (result : call manager input = some (next, filled)) :
    ∃ current, next.currentProcess = some current := by
  have chosen : ∀ {before after : ProcessManager}, schedulerGetNext before = some after →
      ∃ current, after.currentProcess = some current := by
    intro before after scheduled
    obtain ⟨middle, _, same⟩ := Option.map_eq_some_iff.mp scheduled
    subst same
    exact ⟨_, rfl⟩
  cases filled with
  | some slot =>
      obtain ⟨_, pcb, _, _, enqueued⟩ := call_filled result
      exact ⟨current, (enqueueProcess_current enqueued).trans started⟩
  | none =>
      cases call_unfilled_cases result with
      | same => exact ⟨current, started⟩
      | killed => exact ⟨current, started⟩
      | scheduled result => exact chosen result
      | blocked _ result => exact chosen result
      | exited _ result => exact chosen result

/-- A process that blocks is not queued again, so the next one is chosen at once. -/
theorem blockCurrent_eq {current : Slot} (found : manager.currentProcess = some current) :
    blockCurrent manager = some (dispatch (manager.update current (Pcb.setState .blocked))) := by
  have same : (manager.update current (Pcb.setState .blocked)).currentProcess = some current := found
  have blocked : (manager.update current (Pcb.setState .blocked)).state current ≠ .running := by
    simp [ProcessManager.state, update_same, Pcb.setState]
  simp [blockCurrent, found, schedulerGetNext, requeueCurrent, same, blocked]

end

end Helios.Process
