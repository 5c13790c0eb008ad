import Helios.Process.Boot
import Helios.Process.Dispatch

namespace Helios.Process

open Helios.Data ProcessManager

/-! From the boot sequence to a ready queue that works.

The shell leaves the ready queue once for each time that it stops itself, and
`kernel_main` has put it there twice. -/

/-- The shell is still the only process. -/
structure Booted (manager : ProcessManager) : Prop extends Looped manager where
  others : ∀ slot, slot ≠ 0 → manager.processTable slot = {}

/-- The shell runs and is in the queue, in front of the processes that are
ready. -/
structure Doubled (manager : ProcessManager) (rest : List Slot) : Prop
    extends Shelled manager rest where
  queued : ∀ slot, manager.state slot = .ready ↔ slot ∈ rest
  only : ∀ slot, manager.state slot = .running → slot = 0

/-- What holds when the current process has stopped itself so many times. -/
inductive Phase (manager : ProcessManager) : Nat → Prop
  | booted (booted : Booted manager) : Phase manager 0
  | doubled {rest : List Slot} (doubled : Doubled manager rest) : Phase manager 1
  | healthy {queue : List Slot} {stops : Nat} (healthy : Healthy manager queue) :
      Phase manager (stops + 2)

/-- A change of a control block that scheduling does not notice. -/
structure Unnoticed (change : Pcb → Pcb) : Prop where
  next : ∀ pcb, (change pcb).next = pcb.next
  state : ∀ pcb, (change pcb).state = pcb.state
  pid : ∀ pcb, (change pcb).pid = pcb.pid
  name : ∀ pcb, (change pcb).name = pcb.name

section

variable {manager next : ProcessManager} {rest : List Slot} {input : Call} {filled : Option Slot}
variable {limit stops : Nat} {current : Slot} {change : Pcb → Pcb}

theorem boot_booted {kernelPageDir stackTop : Nat}
    (boots : bootProcesses kernelPageDir stackTop = some manager) : Booted manager := by
  refine ⟨boot_looped boots, fun slot different => ?_⟩
  rw [bootProcesses_eq] at boots
  obtain rfl := Option.some.inj boots
  simp [Function.update_of_ne different]

theorem Booted.room (booted : Booted manager) : freeSlot manager ≠ none := by
  intro full
  have taken := List.find?_eq_none.mp full 1 (List.mem_finRange 1)
  rw [booted.others 1 (by decide)] at taken
  exact taken rfl

theorem stops_reschedules (stopping : input.stops = true) : input.reschedules = true := by
  cases input with
  | exitProcess exitCode => rfl
  | waitProcess pid => rfl
  | sleepProcess ms => rfl
  | _ => cases stopping

theorem stopped_ne {state : ProcessState} (stopped : Stopped state) :
    state ≠ .ready ∧ state ≠ .running := by
  rcases stopped with rfl | rfl <;> decide

/-- The shell stops itself and is found at the head of the queue. -/
theorem Booted.stop (booted : Booted manager) (stopping : input.stops = true) :
    ∃ next, call manager input = some (next, none) ∧ Doubled next [] := by
  have stops := mark_stops stopping
  have stopped : entering manager input = manager.update 0 input.mark := by
    simp only [entering, booted.current]
  have halted := entering_state_current booted.current stopping
  have first : (entering manager input).readyQueue = some 0 := by
    rw [stopped]
    exact booted.first
  have loop : (entering manager input).link 0 = some 0 := by
    rw [stopped, ProcessManager.link, update_same, stops.next]
    exact booted.loop
  have idle : requeueCurrent (entering manager input) = some (entering manager input) := by
    simp only [requeueCurrent, entering_current, booted.current]
    exact if_neg (stopped_ne halted).2
  have shelled : Shelled (dispatch (entering manager input)) [] := by
    refine dispatch_shelled first loop ?_ ?_
    · rw [stopped, stops.pid_update]
      exact booted.numbered
    · rw [stopped]
      exact named_update booted.named stops.name
  have others : ∀ slot, slot ≠ 0 →
      (dispatch (entering manager input)).state slot = .new := by
    intro slot different
    rw [dispatch_state, first, Option.getD_some, if_neg different,
      entering_state_other booted.current different, ProcessManager.state,
      booted.others slot different]
  refine ⟨dispatch (entering manager input), ?_, shelled, fun slot => ?_, fun slot active => ?_⟩
  · rw [call_entering booted.current (stops_reschedules stopping), schedulerGetNext, idle]
    rfl
  · refine iff_of_false (fun ready => ?_) List.not_mem_nil
    by_cases shell : slot = 0
    · rw [shell, shelled.running] at ready
      cases ready
    · rw [others slot shell] at ready
      cases ready
  · by_contra different
    rw [others slot different] at active
    cases active

theorem Doubled.creation (doubled : Doubled manager rest) (creates : input.creates = true)
    (counted : filled.isSome → manager.nextPid ≠ 0)
    (result : call manager input = some (next, filled)) :
    Doubled next (rest ++ filled.toList) := by
  have shelled := doubled.toShelled.creation creates counted result
  rcases doubled.toShelled.creates creates result with
    ⟨rfl, rfl⟩ | ⟨slot, pcb, fresh, pid, ready, ended, named, rfl, rfl⟩
  · rwa [Option.toList_none, List.append_nil]
  · have here : (placed manager (0 :: rest) slot pcb).state slot = .ready := by
      rw [ProcessManager.state, placed_same ended, ready]
    refine ⟨shelled, fun other => ?_, fun other active => ?_⟩
    · by_cases same : other = slot
      · rw [same, here]
        simp
      · rw [placed_state_other same, doubled.queued]
        simp [same]
    · by_cases same : other = slot
      · rw [same, here] at active
        cases active
      · rw [placed_state_other same] at active
        exact doubled.only other active

theorem Doubled.settling (doubled : Doubled manager rest) (stopping : input.stops = true) :
    Settling (entering manager input) (0 :: rest) := by
  have stops := mark_stops stopping
  have halted := stopped_ne (entering_state_current doubled.current stopping)
  have others : ∀ slot, slot ≠ 0 → (entering manager input).state slot = manager.state slot :=
    fun slot => entering_state_other doubled.current
  have stopped : entering manager input = manager.update 0 input.mark := by
    simp only [entering, doubled.current]
  have links : (entering manager input).link = manager.link := by
    funext slot
    rw [stopped]
    exact update_aside stops.next 0 slot
  refine
    { chain := by rw [links, stopped]; exact doubled.chain
      queued := fun slot ready => ?_
      waiting := fun slot member => ?_
      running := fun slot active => ?_
      started := ⟨0, entering_current.trans doubled.current⟩
      unused := fun slot different blank => ?_
      idle := fun blank => ?_
      named := ?_ }
  · by_cases shell : slot = 0
    · exact absurd (shell ▸ ready) halted.1
    · rw [others slot shell] at ready
      exact List.mem_cons_of_mem _ ((doubled.queued slot).mp ready)
  · by_cases shell : slot = 0
    · rw [shell]
      exact .inr ⟨rfl, halted.2⟩
    · rw [others slot shell]
      exact .inl ((doubled.queued slot).mpr (by simpa [shell] using member))
  · by_cases shell : slot = 0
    · exact absurd (shell ▸ active) halted.2
    · rw [others slot shell] at active
      exact absurd (doubled.only slot active) shell
  · rw [stopped, stops.pid_update] at blank
    refine ⟨fun member => doubled.numbered slot member blank, fun active => ?_⟩
    rw [others slot different] at active
    exact different (doubled.only slot active)
  · rw [stopped, stops.pid_update] at blank
    exact absurd blank (doubled.numbered 0 List.mem_cons_self)
  · rw [stopped]
    exact named_update doubled.named stops.name

/-- The shell stops itself for the second time and leaves the queue. -/
theorem Doubled.stop (doubled : Doubled manager rest) (stopping : input.stops = true) :
    ∃ next, call manager input = some (next, none) ∧ Healthy next rest := by
  have settling := doubled.settling stopping
  obtain ⟨next, scheduled, effect⟩ := settling.schedule
  have halted := stopped_ne (entering_state_current doubled.current stopping)
  have queue : requeued (entering manager input) (0 :: rest) = 0 :: rest := by
    refine requeued_of_not_running fun current found => ?_
    rw [entering_current, doubled.current] at found
    exact Option.some.inj found ▸ halted.2
  have sound := settling.scheduled_sound effect
  rw [queue] at sound
  refine ⟨next, ?_, sound, fun slot found => ?_⟩
  · rw [call_entering doubled.current (stops_reschedules stopping), scheduled]
    rfl
  · rw [effect.current] at found
    rw [← Option.some.inj found, effect.choice_running]
    decide

/-- A call that creates a process or stops its caller returns, unless nobody has
stopped yet: then creating hangs. -/
theorem Phase.taken (phase : Phase manager stops)
    (kind : input.creates = true ∨ input.stops = true) (counted : Counted limit manager input)
    (fits : input.fits = true) :
    if stops = 0 ∧ input.creates = true then call manager input = none
    else ∃ next filled, call manager input = some (next, filled) ∧
      Phase next (stops + if input.stops then 1 else 0) := by
  cases phase with
  | booted booted =>
      by_cases creates : input.creates = true
      · rw [if_pos ⟨rfl, creates⟩]
        exact booted.creation creates booted.room
      · have stopping := kind.resolve_left creates
        obtain ⟨next, result, doubled⟩ := booted.stop stopping
        rw [if_neg fun both => creates both.2, if_pos stopping]
        exact ⟨next, none, result, .doubled doubled⟩
  | doubled doubled =>
      rw [if_neg fun both => one_ne_zero both.1]
      by_cases stopping : input.stops = true
      · obtain ⟨next, result, healthy⟩ := doubled.stop stopping
        rw [if_pos stopping]
        exact ⟨next, none, result, @Phase.healthy _ _ 0 healthy⟩
      · have creates := kind.resolve_right stopping
        rw [if_neg stopping]
        rcases creation_cases doubled.chain ⟨0, doubled.current⟩ doubled.named
            (fun slot => doubled.toShelled.absent) creates with
          ⟨_, unfit⟩ | ⟨_, full⟩ | ⟨slot, pcb, _, _, _, _, _, placement⟩
        · rw [fits] at unfit
          cases unfit
        · exact ⟨manager, none, full, .doubled doubled⟩
        · exact ⟨_, some slot, placement,
            .doubled (doubled.creation creates (counted.nextPid_ne_zero placement) placement)⟩
  | healthy healthy =>
      rw [if_neg fun both => Nat.succ_ne_zero _ both.1]
      have unkilled : input.kills = false := by
        cases input with
        | killProcess pid sig => rcases kind with kind | kind <;> cases kind
        | _ => rfl
      obtain ⟨next, filled, result⟩ := healthy.returns fits
      refine ⟨next, filled, result, ?_⟩
      rw [Nat.add_right_comm]
      exact .healthy (call_healthy healthy counted unkilled result)

theorem Phase.update (phase : Phase manager stops) (found : manager.currentProcess = some current)
    (unnoticed : Unnoticed change) : Phase (manager.update current change) stops := by
  have links : (manager.update current change).link = manager.link :=
    funext fun slot => update_aside unnoticed.next current slot
  have states : (manager.update current change).state = manager.state :=
    funext fun slot => update_aside unnoticed.state current slot
  have pids : (manager.update current change).pid = manager.pid :=
    funext fun slot => update_aside unnoticed.pid current slot
  cases phase with
  | booted booted =>
      obtain rfl : 0 = current := Option.some.inj (booted.current.symm.trans found)
      refine .booted ⟨⟨found, by rw [states]; exact booted.ready, booted.first,
        by rw [links]; exact booted.loop, by rw [pids]; exact booted.numbered,
        named_update booted.named unnoticed.name⟩, fun slot different => ?_⟩
      rw [update_other different]
      exact booted.others slot different
  | doubled doubled =>
      refine .doubled ⟨⟨doubled.current, by rw [states]; exact doubled.running,
        by rw [links]; exact doubled.chain, by rw [pids]; exact doubled.numbered,
        by rw [states]; exact doubled.alive, named_update doubled.named unnoticed.name⟩, ?_, ?_⟩
      · rw [states]
        exact doubled.queued
      · rw [states]
        exact doubled.only
  | healthy healthy =>
      refine .healthy
        { chain := by rw [links]; exact healthy.chain
          queued := by rw [states]; exact healthy.queued
          waiting := by rw [states]; exact healthy.waiting
          running := by rw [states]; exact healthy.running
          started := healthy.started
          unused := by rw [states, pids]; exact healthy.unused
          idle := by rw [pids]; exact healthy.idle
          named := named_update healthy.named unnoticed.name
          ready := by rw [states]; exact healthy.ready
          current := by rw [states]; exact healthy.current
          alive := by rw [states]; exact healthy.alive }

end

end Helios.Process
