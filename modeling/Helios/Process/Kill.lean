import Helios.Process.Numbers

namespace Helios.Process

open Helios.Data ProcessManager

/-! What a call of `kill_process` means for the rest of the run. -/

section

variable {manager next final : ProcessManager} {queue : List Slot} {slot victim : Slot}
variable {input : Call} {filled : Option Slot} {calls more : List Call} {number limit : Nat}

/-- No process with this number can be selected again. -/
def Buried (number : Nat) (manager : ProcessManager) : Prop :=
  ∀ slot, manager.pid slot = number →
    slot ≠ 0 ∧ (manager.state slot = .blocked ∨ manager.state slot = .terminated)

theorem Settling.scheduled_other (settling : Settling manager queue)
    (scheduled : Scheduled manager queue next) (notIdle : slot ≠ 0) (absent : slot ∉ queue)
    (stopped : manager.state slot = .blocked ∨ manager.state slot = .terminated) :
    next.state slot = manager.state slot := by
  have still : manager.state slot ≠ .running := by
    cases stopped with
    | inl blocked => simp [blocked]
    | inr terminated => simp [terminated]
  have unchosen : slot ≠ selected manager queue := by
    intro same
    cases settling.selection with
    | inl empty => exact notIdle (same.trans empty.2)
    | inr shape =>
        have member : slot ∈ requeued manager queue := by
          rw [shape.1, same]
          exact List.mem_cons_self
        cases mem_requeued.mp member with
        | inl inside => exact absent inside
        | inr last => exact still last.2
  simp [scheduled.state_eq, scheduledState, unchosen, still]

theorem Sound.call_buried (sound : Sound manager queue) (result : call manager input = some (next, filled))
    (buried : Buried number manager) (old : number < manager.nextPid) : Buried number next := by
  intro slot numbered
  rw [call_pid result] at numbered
  split at numbered
  · omega
  rename_i unfilled
  obtain ⟨notIdle, stopped⟩ := buried slot numbered
  refine ⟨notIdle, ?_⟩
  have absent : slot ∉ queue := by
    intro member
    have ready := sound.ready slot member
    cases stopped with
    | inl blocked => rw [ready] at blocked; cases blocked
    | inr terminated => rw [ready] at terminated; cases terminated
  cases sound.effect_of_call result with
  | full => exact stopped
  | @filled _ taken _ creates free pid ready ended named =>
      have different : slot ≠ taken := fun same => unfilled (by rw [same])
      rw [placed_state_other different]
      exact stopped
  | scheduled scheduled =>
      rw [sound.toSettling.scheduled_other scheduled notIdle absent stopped]
      exact stopped
  | @stopped _ current change _ reschedules stopping found stops scheduled =>
      have still : (manager.update current change).state slot = .blocked ∨
          (manager.update current change).state slot = .terminated := by
        by_cases same : slot = current
        · subst same
          simpa [ProcessManager.state] using stops.state _
        · simpa [ProcessManager.state, update_other same] using stopped
      rw [(sound.stop (sound.current_first found) stops).scheduled_other scheduled notIdle absent still]
      exact still
  | @killed target sig =>
      cases found : killSlot manager target with
      | none => simpa [killProcess, found] using stopped
      | some victim =>
          simp only [killProcess, found]
          by_cases same : slot = victim
          · subst same
            simp [ProcessManager.state]
          · simpa [ProcessManager.state, update_other same] using stopped

/-- The number of calls of a run that dequeue. -/
def reschedulings (calls : List Call) : Nat := calls.countP Call.reschedules

/-- What is left of a queue after a call is in front of the new queue. -/
theorem drop_prefix_advance {arriving : Option Slot} {served : Bool} :
    queue.drop (if served then 1 else 0) <+: advance queue arriving served := by
  cases served with
  | false => simp [advance]
  | true =>
      cases queue with
      | nil => simp
      | cons head rest => simp [advance]

theorem Sound.run_buried (sound : Sound manager queue) (numbered : Numbered manager)
    (buried : Buried number manager) (old : number < manager.nextPid)
    (along : Along step (fun manager input => Counted (2 ^ 32 - 1) manager input ∧
      Admissible manager input) manager more)
    (reached : run step manager more = some final) :
    ∃ after, Sound final after ∧ Buried number final ∧
      queue.drop (reschedulings more) <+: after ∧
      ∀ slot ∈ queue.drop (reschedulings more), final.pid slot = manager.pid slot := by
  induction more generalizing manager queue with
  | nil =>
      cases reached
      exact ⟨queue, sound, buried, by simp [reschedulings], fun _ _ => rfl⟩
  | cons input rest ih =>
      obtain ⟨⟨counted, admissible⟩, later⟩ := along
      cases result : call manager input with
      | none => simp [run, step, result] at reached
      | some outcome =>
          obtain ⟨next, filled⟩ := outcome
          have taken : step manager input = some next := by simp [step, result]
          simp only [run, taken, Option.bind_some] at reached
          have effect := sound.effect_of_call result
          obtain ⟨nextNumbered, growing⟩ := call_numbered numbered counted result
          obtain ⟨after, final_sound, final_buried, inFront, pids⟩ :=
            ih (effect.sound sound (counted.nextPid_ne_zero result) admissible) nextNumbered
              (sound.call_buried result buried old) (by omega) (later next taken) reached
          have shorter : queue.drop (reschedulings (input :: rest)) <+:
              (advance queue (arrival manager input filled) input.reschedules).drop
                (reschedulings rest) := by
            have split : reschedulings (input :: rest) =
                (if input.reschedules then 1 else 0) + reschedulings rest := by
              simp [reschedulings, List.countP_cons, Nat.add_comm]
            rw [split, ← List.drop_drop]
            exact drop_prefix_advance.drop _
          refine ⟨after, final_sound, final_buried, shorter.trans inFront, fun slot member => ?_⟩
          rw [pids slot (shorter.subset member), call_pid result, if_neg]
          intro refilled
          have waiting := List.mem_of_mem_drop member
          subst refilled
          cases effect with
          | filled creates free pid ready ended named => exact sound.lined.free_not_queued free waiting

theorem run_sound {kernelPageDir : Nat}
    (bound : creations (initProcessManager kernelPageDir) calls < 2 ^ 32 - 1)
    (admissible : Along step Admissible (initProcessManager kernelPageDir) calls)
    (reached : run step (initProcessManager kernelPageDir) calls = some manager) :
    ∃ queue, Sound manager queue ∧ Numbered manager := by
  have counted : Along step (Counted (2 ^ 32 - 1)) (initProcessManager kernelPageDir) calls :=
    along_counted (show _ = u32 (0 + 1) from rfl) (by omega) (by omega)
  refine run_invariant (fun manager => ∃ queue, Sound manager queue ∧ Numbered manager)
    (counted.and admissible)
    ⟨[], initProcessManager_sound kernelPageDir, initProcessManager_numbered kernelPageDir⟩ ?_ reached
  intro manager input next holds fine taken
  obtain ⟨queue, sound, numbered⟩ := holds
  obtain ⟨⟨after, filled⟩, result, same⟩ := Option.map_eq_some_iff.mp taken
  cases same
  exact ⟨_, (sound.effect_of_call result).sound sound (fine.1.nextPid_ne_zero result) fine.2,
    (call_numbered numbered fine.1 result).1⟩

theorem call_unfilled (quiet : input.creates = false)
    (result : call manager input = some (next, filled)) : filled = none := by
  cases input with
  | createProcess name entry stackTop => cases quiet
  | forkProcess => cases quiet
  | killProcess target sig =>
      simp only [call, Option.some.injEq, Prod.mk.injEq] at result
      exact result.2.symm
  | _ =>
      obtain ⟨_, _, same⟩ := Option.map_eq_some_iff.mp result
      cases same
      rfl

theorem creations_eq_zero (quiet : ∀ input ∈ calls, input.creates = false) :
    creations manager calls = 0 := by
  induction calls generalizing manager with
  | nil => rfl
  | cons input rest ih =>
      cases result : call manager input with
      | none => simp [creations, result]
      | some outcome =>
          have unfilled : outcome.2 = none := call_unfilled (quiet input (by simp)) result
          simp [creations, result, unfilled, ih (fun other member => quiet other (by simp [member]))]

/-- Whoever is linked in the ready queue is dispatched after as many
reschedules as there are processes up to it. -/
theorem queued_dispatched {position : Nat} (chain : Chain manager.link manager.readyQueue queue)
    (apart : ∀ current, manager.currentProcess = some current →
      manager.state current = .running → current ∉ queue)
    (there : queue[position]? = some slot) :
    ∃ final, run step manager (List.replicate (position + 1) .schedulerGetNext) = some final ∧
      final.state slot = .running ∧ final.pid slot = manager.pid slot := by
  induction position generalizing manager queue with
  | zero =>
      obtain ⟨after, result, scheduled⟩ := schedulerGetNext_spec chain apart
      have chosen : selected manager queue = slot :=
        selected_of_head (by simpa [List.head?_eq_getElem?] using there)
      refine ⟨after, by simp [run, step, call, result], ?_, scheduled.pid_eq slot⟩
      rw [← chosen]
      exact scheduled.choice_running
  | succ position ih =>
      obtain ⟨after, result, scheduled⟩ := schedulerGetNext_spec chain apart
      have forward : (requeued manager queue).tail[position]? = some slot := by
        rw [requeued_eq]
        exact advance_forward there
      have fresh : ∀ current, after.currentProcess = some current →
          after.state current = .running → current ∉ (requeued manager queue).tail := by
        intro current found _
        have same := Option.some.inj (scheduled.current.symm.trans found)
        subst same
        cases requeued_cases (requeued_nodup chain.nodup apart) with
        | inl empty => simp [empty.1]
        | inr shape => exact shape.2
      obtain ⟨final, reached, active, pid⟩ := ih scheduled.chain fresh forward
      refine ⟨final, ?_, active, pid.trans (scheduled.pid_eq slot)⟩
      rw [List.replicate_succ]
      simp only [run, step, call, result, Option.map_some, Option.bind_some]
      exact reached

/-- Slot `0` is dispatched once everybody else has blocked. -/
theorem Sound.idle_dispatched {length : Nat} (sound : Sound manager queue)
    (size : queue.length = length) :
    ∃ final, run step manager (List.replicate (length + 1) (.waitProcess 0)) = some final ∧
      final.state 0 = .running ∧ final.pid 0 = manager.pid 0 := by
  induction length generalizing manager queue with
  | zero =>
      have empty := List.eq_nil_of_length_eq_zero size
      subst empty
      obtain ⟨next, filled, result⟩ := sound.returns (show (Call.waitProcess 0).fits = true from rfl)
      have effect := sound.effect_of_call result
      refine ⟨next, by simp [run, step, result], ?_, ?_⟩
      · cases effect with
        | full creates taken => cases creates
        | filled creates free pid ready ended named => cases creates
        | @stopped _ current change _ reschedules stopping found stops scheduled =>
            have nobody : requeued (manager.update current change) [] = [] := by
              refine requeued_of_not_running fun other same => ?_
              have here : current = other := Option.some.inj (found.symm.trans same)
              subst here
              simpa [ProcessManager.state] using (stops.not_ready _).2
            simpa [selected, nobody] using scheduled.choice_running
      · simp [call_pid result, call_unfilled rfl result]
  | succ length ih =>
      obtain ⟨next, filled, result⟩ := sound.returns (show (Call.waitProcess 0).fits = true from rfl)
      have effect := sound.effect_of_call result
      have unfilled := call_unfilled rfl result
      subst unfilled
      have following := effect.sound sound (by simp) trivial
      obtain ⟨final, reached, active, pid⟩ :=
        ih following (by simp [advance, arrival, Call.reschedules, size])
      refine ⟨final, ?_, active, by simpa [call_pid result] using pid⟩
      rw [List.replicate_succ]
      simp only [run, step, result, Option.map_some, Option.bind_some]
      exact reached

/-- In every continuation with admissible steps and fewer than `budget`
creations, the process that was killed in slot `victim` never runs, and every
other process of the old ready queue stays linked, in the old order, until a
reschedule dequeues it. -/
def KilledForGood (manager killed : ProcessManager) (victim : Slot) (budget : Nat) : Prop :=
  ∀ more final, Along step Admissible killed more → creations killed more < budget →
    run step killed more = some final →
      (∀ slot, final.pid slot = manager.pid victim → final.state slot ≠ .running) ∧
      ∀ queue, Chain manager.link manager.readyQueue queue →
        ∃ after, Chain final.link final.readyQueue after ∧
          ((queue.drop (reschedulings more)).filter (· ≠ victim)).Sublist after ∧
          ∀ slot ∈ queue.drop (reschedulings more), slot ≠ victim →
            final.pid slot = manager.pid slot

theorem killSlot_pid {target : Int} (positive : 1 ≤ target) (signed : target < 2 ^ 31)
    (found : killSlot manager target = some victim) : manager.pid victim ≠ 0 := by
  have matching := List.find?_some found
  simp only [Bool.and_eq_true, decide_eq_true_eq] at matching
  omega

/-- A victim that is linked in the queue, or sits in slot `0`, is dispatched in
some continuation. -/
theorem Sound.killed_dispatched (sound : Sound manager queue)
    (exposed : manager.state victim = .ready ∨ victim = 0 ∧ manager.state victim ≠ .ready)
    (target sig : Int) (found : killSlot manager target = some victim) :
    ∃ input length final, input.creates = false ∧ (∀ manager, Admissible manager input) ∧
      run step (manager.update victim (Pcb.setState .terminated)) (List.replicate length input) =
        some final ∧
      final.state victim = .running ∧ final.pid victim = manager.pid victim := by
  have stops := setState_stops (.inr (Eq.refl ProcessState.terminated))
  have samePid := stops.pid_update manager victim victim
  cases exposed with
  | inl ready =>
      obtain ⟨position, there⟩ := List.mem_iff_getElem?.mp (sound.queued victim ready)
      have chain : Chain (manager.update victim (Pcb.setState .terminated)).link
          manager.readyQueue queue := by
        rw [link_setState]
        exact sound.chain
      have apart : ∀ current, manager.currentProcess = some current →
          (manager.update victim (Pcb.setState .terminated)).state current = .running →
            current ∉ queue := by
        intro current _ active
        by_cases same : current = victim
        · subst same
          simp [ProcessManager.state] at active
        · simp only [ProcessManager.state, update_other same] at active
          exact sound.toSettling.current_not_mem active
      obtain ⟨final, reached, active, pid⟩ := queued_dispatched chain apart there
      exact ⟨.schedulerGetNext, _, final, rfl, fun _ => trivial, reached, active, pid.trans samePid⟩
  | inr idle =>
      obtain ⟨same, notReady⟩ := idle
      subst same
      have buried := sound.kill target sig (fun slot same => by
        rw [found] at same
        cases same
        exact notReady)
      simp only [killProcess, found] at buried
      obtain ⟨final, reached, active, pid⟩ := buried.idle_dispatched rfl
      exact ⟨.waitProcess 0, _, final, rfl, fun _ => trivial, reached, active, pid.trans samePid⟩

/-- A victim that is neither queued nor in slot `0` is out of the scheduler's
reach. -/
theorem Sound.kill_buries (sound : Sound manager queue) (numbered : Numbered manager)
    (safe : victim ≠ 0 ∧ manager.state victim ≠ .ready) (used : manager.pid victim ≠ 0)
    (target sig : Int) (found : killSlot manager target = some victim) :
    Sound (manager.update victim (Pcb.setState .terminated)) queue ∧
      Buried (manager.pid victim) (manager.update victim (Pcb.setState .terminated)) := by
  have stops := setState_stops (.inr (Eq.refl ProcessState.terminated))
  have kept := sound.kill target sig (fun slot same => by
    rw [found] at same
    cases same
    exact safe.2)
  simp only [killProcess, found] at kept
  refine ⟨kept, fun slot same => ?_⟩
  rw [stops.pid_update manager victim] at same
  have here := numbered.distinct slot victim same (by omega)
  rw [here]
  exact ⟨safe.1, .inr (by simp [ProcessManager.state])⟩

/-- A kill is final and loses nobody exactly when its victim is neither queued
nor in slot `0`. -/
theorem killed_for_good_iff (kernelPageDir : Nat) (calls : List Call)
    (manager killed : ProcessManager) (target sig : Int) (victim : Slot)
    (bound : creations (initProcessManager kernelPageDir) calls < 2 ^ 32 - 1)
    (admissible : Along step Admissible (initProcessManager kernelPageDir) calls)
    (reached : run step (initProcessManager kernelPageDir) calls = some manager)
    (positive : 1 ≤ target) (signed : target < 2 ^ 31)
    (found : killSlot manager target = some victim)
    (result : killProcess manager target sig = (killed, 0)) :
    KilledForGood manager killed victim
        (2 ^ 32 - 1 - creations (initProcessManager kernelPageDir) calls) ↔
      victim ≠ 0 ∧ manager.state victim ≠ .ready := by
  obtain ⟨queue, sound, numbered⟩ := run_sound bound admissible reached
  have used := killSlot_pid positive signed found
  have stops := setState_stops (.inr (Eq.refl ProcessState.terminated))
  have outcome : manager.update victim (Pcb.setState .terminated) = killed := by
    simp only [killProcess, found, Prod.mk.injEq] at result
    exact result.1
  constructor
  · intro forGood
    by_contra exposed
    have dispatched := sound.killed_dispatched (by tauto) target sig found
    obtain ⟨input, length, final, quiet, harmless, ran, active, pid⟩ := dispatched
    have members : ∀ other ∈ List.replicate length input, other = input :=
      fun other => List.eq_of_mem_replicate
    rw [outcome] at ran
    refine (forGood _ final (.of_forall fun other member state => ?_) ?_ ran).1 victim pid active
    · rw [members other member]
      exact harmless state
    · rw [creations_eq_zero fun other member => by rw [members other member]; exact quiet]
      omega
  · intro safe more final along small ran
    have returned : call manager (.killProcess target sig) = some (killed, none) := by
      simp [call, result]
    have longer : Along step (Counted (2 ^ 32 - 1)) (initProcessManager kernelPageDir)
        (calls ++ .killProcess target sig :: more) := by
      refine along_counted (show _ = u32 (0 + 1) from rfl) (by omega) ?_
      rw [creations_append reached]
      simp only [creations, returned, Option.isSome_none, Bool.false_eq_true, if_false]
      omega
    obtain ⟨counted, later⟩ := (along_append longer reached).2
    have continued := later killed (by simp [step, returned])
    have pids : ∀ slot, killed.pid slot = manager.pid slot := by
      rw [← outcome]
      exact stops.pid_update manager victim
    obtain ⟨killedSound, buried⟩ := sound.kill_buries numbered safe used target sig found
    rw [outcome] at killedSound buried
    obtain ⟨killedNumbered, growing⟩ := call_numbered numbered counted returned
    have old : manager.pid victim < killed.nextPid := (numbered.below victim).trans_le growing
    obtain ⟨after, afterSound, afterBuried, inFront, kept⟩ :=
      killedSound.run_buried killedNumbered buried old (continued.and along) ran
    refine ⟨fun slot same => ?_, fun other chain => ⟨after, afterSound.chain, ?_, ?_⟩⟩
    · cases (afterBuried slot same).2 with
      | inl blocked => simp [blocked]
      | inr terminated => simp [terminated]
    · rw [chain.unique sound.chain]
      exact List.filter_sublist.trans inFront.sublist
    · intro slot member _
      rw [chain.unique sound.chain] at member
      rw [kept slot member, pids]

theorem killed_for_good_iff_blocked :
    ∃ manager killed, run step (initProcessManager 0)
        [.createProcess [97] 4096 8192, .forkProcess, .schedulerGetNext, .schedulerGetNext,
          .waitProcess 0] = some manager ∧
      killProcess manager 2 9 = (killed, 0) ∧
      (KilledForGood manager killed 1 (2 ^ 32 - 1 - 2) ↔
        (1 : Slot) ≠ 0 ∧ manager.state 1 ≠ .ready) := by
  refine ⟨_, _, rfl, rfl, ?_⟩
  exact killed_for_good_iff 0
    [.createProcess [97] 4096 8192, .forkProcess, .schedulerGetNext, .schedulerGetNext,
      .waitProcess 0] _ _ 2 9 1 (by decide) (along_admissible (by decide) (by decide)) rfl (by decide)
    (by decide) rfl rfl

/-- A process that is killed while it waits behind another one is dispatched by
the second reschedule. -/
theorem killed_process_dispatched :
    ∃ manager killed final,
      run step (initProcessManager 0) [.createProcess [97] 4096 8192, .forkProcess] = some manager ∧
      manager.pid 1 = 2 ∧ killProcess manager 2 9 = (killed, 0) ∧
      run step killed [.schedulerGetNext, .schedulerGetNext] = some final ∧
      final.pid 1 = 2 ∧ final.state 1 = .running :=
  ⟨_, _, _, rfl, rfl, rfl, rfl, rfl, rfl⟩

end

end Helios.Process
