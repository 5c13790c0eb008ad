import Mathlib.Data.List.TakeWhile
import Helios.Process.Invariant

namespace Helios.Process

open Helios.Data ProcessManager

def Call.creates : Call → Bool
  | .createProcess _ _ _ => true
  | .forkProcess => true
  | _ => false

/-- The calls that end in `scheduler_get_next`. -/
def Call.reschedules : Call → Bool
  | .exitProcess _ => true
  | .waitProcess _ => true
  | .sleepProcess _ => true
  | .schedulerGetNext => true
  | _ => false

def Call.kills : Call → Bool
  | .killProcess _ _ => true
  | _ => false

/-- A name passed to `create_process` fits its field, terminator included. -/
def Call.fits : Call → Bool
  | .createProcess name _ _ => (copyName name).isSome
  | _ => true

/-- The manager after a creation has filled `slot` with `pcb`. -/
def placed (manager : ProcessManager) (queue : List Slot) (slot : Slot) (pcb : Pcb) :
    ProcessManager :=
  enqueued ((clearSlot manager slot).update slot fun _ => pcb) queue slot

section

variable {manager after : ProcessManager} {queue : List Slot} {slot other : Slot} {pcb : Pcb}
variable {input : Call}

theorem clearSlot_update {change : Pcb → Pcb} :
    (clearSlot manager slot).update slot change =
      (clearSlot manager slot).update slot fun _ => change (emptyPcb manager.nextPid) := by
  simp [clearSlot, update]

theorem copyName_idempotent {name text : List UInt8} (copied : copyName name = some text) :
    (copyName text).isSome := by
  simp only [copyName] at copied
  split at copied
  · rename_i short
    have same := Option.some.inj copied
    subst same
    have again : (name.takeWhile (· ≠ 0)).takeWhile (· ≠ 0) = name.takeWhile (· ≠ 0) :=
      List.takeWhile_idem
    simp only [copyName, again, short, if_true, Option.isSome_some]
  · cases copied

theorem freeSlot_free (found : freeSlot manager = some slot) :
    isFreeSlot (manager.processTable slot) = true := by
  have passed := List.find?_some found
  exact passed

theorem freeSlot_zero (free : isFreeSlot (manager.processTable 0) = true) :
    freeSlot manager = some 0 := by
  simp only [freeSlot, List.finRange_succ, List.find?_cons, free]

theorem enqueue_placed (chain : Chain manager.link manager.readyQueue queue)
    (absent : slot ∉ queue) :
    enqueueProcess ((clearSlot manager slot).update slot fun _ => pcb) slot =
      some (placed manager queue slot pcb) := by
  refine enqueueProcess_eq (chain.congr fun item member => ?_) absent
  have different : item ≠ slot := fun same => absent (same ▸ member)
  rw [link_update_other different, clearSlot, link_update_other different]
  rfl

theorem creation_cases (chain : Chain manager.link manager.readyQueue queue)
    (started : ∃ current, manager.currentProcess = some current)
    (named : ∀ slot, (copyName (manager.processTable slot).name).isSome)
    (absent : ∀ slot, freeSlot manager = some slot → slot ∉ queue)
    (creates : input.creates = true) :
    (call manager input = none ∧ input.fits = false) ∨
      (freeSlot manager = none ∧ call manager input = some (manager, none)) ∨
      ∃ slot pcb, freeSlot manager = some slot ∧ pcb.pid = manager.nextPid ∧ pcb.state = .ready ∧
        pcb.next = none ∧ (copyName pcb.name).isSome ∧
        call manager input = some (placed manager queue slot pcb, some slot) := by
  cases free : freeSlot manager with
  | none =>
      refine .inr (.inl ⟨rfl, ?_⟩)
      cases input with
      | createProcess name entry stackTop => simp [call, createProcess, createProcessEmpty, free]
      | forkProcess =>
          obtain ⟨current, found⟩ := started
          simp [call, forkProcess, createProcessEmpty, free, found]
      | _ => cases creates
  | some slot =>
      cases input with
      | createProcess name entry stackTop =>
          cases copied : copyName name with
          | none =>
              refine .inl ⟨?_, by simp [Call.fits, copied]⟩
              simp [call, createProcess, createProcessEmpty, free, copied]
          | some text =>
              have fitting := copyName_idempotent copied
              refine .inr (.inr ⟨slot, createPcb text entry stackTop ?_ (emptyPcb manager.nextPid),
                rfl, rfl, rfl, rfl, fitting, ?_⟩)
              rotate_left
              · simp only [call, createProcess, createProcessEmpty, free, Option.map_some, copied]
                rw [clearSlot_update, enqueue_placed chain (absent slot free)]
                rfl
      | forkProcess =>
          obtain ⟨current, found⟩ := started
          have parentNamed :
              (copyName ((clearSlot manager slot).processTable current).name).isSome := by
            by_cases same : current = slot
            · subst same
              simp [clearSlot, emptyPcb, copyName]
            · rw [clearSlot, update_other same]
              exact named current
          obtain ⟨text, copied⟩ := Option.isSome_iff_exists.mp parentNamed
          have fitting := copyName_idempotent copied
          refine .inr (.inr ⟨slot, forkPcb ((clearSlot manager slot).processTable current) current
            text (emptyPcb manager.nextPid), rfl, rfl, rfl, rfl, fitting, ?_⟩)
          simp only [call, forkProcess, createProcessEmpty, free, found, Option.map_some, copied]
          rw [clearSlot_update, enqueue_placed chain (absent slot free)]
          rfl
      | _ => cases creates

theorem placed_same (ended : pcb.next = none) :
    (placed manager queue slot pcb).processTable slot = pcb := by
  simp only [placed, enqueued, if_true, update_same]
  rw [← ended]
  rfl

theorem placed_other (different : other ≠ slot) :
    (placed manager queue slot pcb).processTable other =
      if queue.getLast? = some other then (manager.processTable other).setNext (some slot)
      else manager.processTable other := by
  have kept : ((clearSlot manager slot).update slot fun _ => pcb).processTable other =
      manager.processTable other := by
    rw [update_other different, clearSlot, update_other different]
  simp only [placed, enqueued, different, if_false, kept]

theorem placed_state_other (different : other ≠ slot) :
    (placed manager queue slot pcb).state other = manager.state other := by
  rw [ProcessManager.state, placed_other different]
  split <;> rfl

theorem placed_pid_other (different : other ≠ slot) :
    (placed manager queue slot pcb).pid other = manager.pid other := by
  rw [ProcessManager.pid, placed_other different]
  split <;> rfl

theorem placed_chain (chain : Chain manager.link manager.readyQueue queue) (absent : slot ∉ queue) :
    Chain (placed manager queue slot pcb).link (placed manager queue slot pcb).readyQueue
      (queue ++ [slot]) := by
  refine enqueued_chain (chain.congr fun item member => ?_) absent
  have different : item ≠ slot := fun same => absent (same ▸ member)
  rw [link_update_other different, clearSlot, link_update_other different]
  rfl

theorem Lined.free_not_queued (lined : Lined manager queue) (found : freeSlot manager = some slot) :
    slot ∉ queue := by
  intro member
  have ready := lined.ready slot member
  have free := freeSlot_free found
  simp only [isFreeSlot, Bool.or_eq_true, decide_eq_true_eq] at free
  cases free with
  | inl terminated =>
      have different : manager.state slot = .terminated := terminated
      rw [ready] at different
      cases different
  | inr blank =>
      by_cases same : slot = 0
      · subst same
        have empty := (lined.idle blank).2
        simp [empty] at member
      · exact (lined.unused slot same blank).1 member

theorem Lined.place (lined : Lined manager queue) (found : freeSlot manager = some slot)
    (counted : manager.nextPid ≠ 0) (pid : pcb.pid = manager.nextPid) (ready : pcb.state = .ready)
    (ended : pcb.next = none) (named : (copyName pcb.name).isSome) :
    Lined (placed manager queue slot pcb) (queue ++ [slot]) := by
  have absent := lined.free_not_queued found
  have here : (placed manager queue slot pcb).state slot = .ready := by
    rw [ProcessManager.state, placed_same ended, ready]
  have herePid : (placed manager queue slot pcb).pid slot ≠ 0 := by
    rw [ProcessManager.pid, placed_same ended, pid]
    exact counted
  have active : ∀ other, (placed manager queue slot pcb).state other = .running →
      other ≠ slot ∧ manager.state other = .running := by
    intro other running
    by_cases same : other = slot
    · subst same
      rw [here] at running
      cases running
    · rw [placed_state_other same] at running
      exact ⟨same, running⟩
  have allReady : ∀ other ∈ queue ++ [slot], (placed manager queue slot pcb).state other = .ready := by
    intro other member
    by_cases same : other = slot
    · rw [same, here]
    · rw [placed_state_other same]
      simp only [List.mem_append, List.mem_singleton, same, or_false] at member
      exact lined.ready other member
  refine
    { chain := placed_chain lined.chain absent
      queued := ?_
      waiting := fun other member => .inl (allReady other member)
      running := fun other running => lined.running other (active other running).2
      started := lined.started
      unused := ?_
      idle := ?_
      named := ?_
      ready := allReady }
  · intro other waiting
    by_cases same : other = slot
    · simp [same]
    · rw [placed_state_other same] at waiting
      simp [lined.queued other waiting]
  · intro other different blank
    by_cases same : other = slot
    · exact absurd (same ▸ blank) herePid
    · rw [placed_pid_other same] at blank
      obtain ⟨outside, stopped⟩ := lined.unused other different blank
      exact ⟨by simp [outside, same], fun running => stopped (active other running).2⟩
  · intro blank
    by_cases same : 0 = slot
    · exact absurd (same ▸ blank) herePid
    · rw [placed_pid_other same] at blank
      have first := freeSlot_zero (show isFreeSlot (manager.processTable 0) = true by
        simpa [isFreeSlot] using .inr blank)
      exact absurd (Option.some.inj (first.symm.trans found)) same
  · intro other
    by_cases same : other = slot
    · rw [same, placed_same ended]
      exact named
    · rw [placed_other same]
      split
      · exact lined.named other
      · exact lined.named other

/-- A creation keeps the invariant unless it takes the slot of the current
process while others are waiting. -/
theorem Sound.place (sound : Sound manager queue) (found : freeSlot manager = some slot)
    (counted : manager.nextPid ≠ 0) (apart : manager.currentProcess = some slot → queue = [])
    (pid : pcb.pid = manager.nextPid) (ready : pcb.state = .ready) (ended : pcb.next = none)
    (named : (copyName pcb.name).isSome) :
    Sound (placed manager queue slot pcb) (queue ++ [slot]) := by
  have lined := sound.lined.place found counted pid ready ended named
  refine ⟨lined.toSettling, lined.ready, fun other current => ?_⟩
  have before : manager.currentProcess = some other := current
  by_cases same : other = slot
  · subst same
    simp [apart before]
  · rw [placed_state_other same]
    cases sound.current other before with
    | inl running => exact .inl running
    | inr rest =>
        cases rest with
        | inl terminated => exact .inr (.inl terminated)
        | inr first => exact .inr (.inr (by simp [List.head?_append, first]))

/-- Killing keeps the invariant unless the victim is queued. -/
theorem Sound.kill (sound : Sound manager queue) (target : Int) (sig : Int)
    (unqueued : ∀ slot, killSlot manager target = some slot → manager.state slot ≠ .ready) :
    Sound (killProcess manager target sig).1 queue := by
  cases found : killSlot manager target with
  | none => simpa [killProcess, found] using sound
  | some victim =>
      have absent : victim ∉ queue := fun member => unqueued victim found (sound.ready victim member)
      have settled := sound.stop (fun member => absurd member absent)
        (setState_stops (.inr (Eq.refl ProcessState.terminated)))
      have states : ∀ slot, slot ≠ victim →
          (manager.update victim (Pcb.setState .terminated)).state slot = manager.state slot := by
        intro slot different
        simp [ProcessManager.state, update_other different]
      simp only [killProcess, found]
      refine { settled with ready := ?_, current := ?_ }
      · intro slot member
        have different : slot ≠ victim := fun same => absent (same ▸ member)
        rw [states slot different]
        exact sound.ready slot member
      · intro slot current
        by_cases same : slot = victim
        · subst same
          exact .inr (.inl (by simp [ProcessManager.state]))
        · rw [states slot same]
          exact sound.current slot current

/-- What a call that returns has done to a manager with ready queue `queue`. -/
inductive Effect (manager : ProcessManager) (queue : List Slot) :
    Call → ProcessManager → Option Slot → Prop
  | full {input : Call} (creates : input.creates = true) (taken : freeSlot manager = none) :
      Effect manager queue input manager none
  | filled {input : Call} {slot : Slot} {pcb : Pcb} (creates : input.creates = true)
      (free : freeSlot manager = some slot) (pid : pcb.pid = manager.nextPid)
      (ready : pcb.state = .ready) (ended : pcb.next = none) (named : (copyName pcb.name).isSome) :
      Effect manager queue input (placed manager queue slot pcb) (some slot)
  | scheduled {after : ProcessManager} (scheduled : Scheduled manager queue after) :
      Effect manager queue .schedulerGetNext after none
  | stopped {input : Call} {current : Slot} {change : Pcb → Pcb} {after : ProcessManager}
      (reschedules : input.reschedules = true) (stopping : input ≠ .schedulerGetNext)
      (found : manager.currentProcess = some current) (stops : Stops change)
      (scheduled : Scheduled (manager.update current change) queue after) :
      Effect manager queue input after none
  | killed {target sig : Int} :
      Effect manager queue (.killProcess target sig) (killProcess manager target sig).1 none

/-- Between calls every call whose name fits returns, with one of these effects. -/
theorem Sound.effect (sound : Sound manager queue) :
    (call manager input = none ∧ input.fits = false) ∨
      ∃ next filled, call manager input = some (next, filled) ∧
        Effect manager queue input next filled := by
  by_cases creates : input.creates = true
  · have outcome := creation_cases sound.chain sound.started sound.named
      (fun slot => sound.lined.free_not_queued) creates
    obtain overrun | ⟨taken, result⟩ | ⟨slot, pcb, free, pid, ready, ended, named, result⟩ := outcome
    · exact .inl overrun
    · exact .inr ⟨_, _, result, .full creates taken⟩
    · exact .inr ⟨_, _, result, .filled creates free pid ready ended named⟩
  · obtain ⟨current, found⟩ := sound.started
    have stopping : ∀ change : Pcb → Pcb, Stops change → ∃ after,
        schedulerGetNext (manager.update current change) = some after ∧
          Scheduled (manager.update current change) queue after :=
      fun change stops => (sound.stop (sound.current_first found) stops).schedule
    right
    cases input with
    | createProcess name entry stackTop => exact absurd rfl creates
    | forkProcess => exact absurd rfl creates
    | exitProcess exitCode =>
        have stops : Stops fun pcb => { pcb with exitCode, state := .terminated } :=
          ⟨fun _ => rfl, fun _ => rfl, fun _ => rfl, fun _ => .inr rfl⟩
        obtain ⟨after, result, scheduled⟩ := stopping _ stops
        refine ⟨after, none, ?_, .stopped rfl (by simp) found stops scheduled⟩
        simp only [call, exitProcess, found, result, Option.map_some]
    | waitProcess pid =>
        have stops := setState_stops (.inl (Eq.refl ProcessState.blocked))
        obtain ⟨after, result, scheduled⟩ := stopping _ stops
        refine ⟨after, none, ?_, .stopped rfl (by simp) found stops scheduled⟩
        simp only [call, waitProcess, blockCurrent, found, result, Option.map_some]
    | sleepProcess ms =>
        have stops := setState_stops (.inl (Eq.refl ProcessState.blocked))
        obtain ⟨after, result, scheduled⟩ := stopping _ stops
        refine ⟨after, none, ?_, .stopped rfl (by simp) found stops scheduled⟩
        simp only [call, sleepProcess, blockCurrent, found, result, Option.map_some]
    | killProcess target sig => exact ⟨_, none, rfl, .killed⟩
    | schedulerGetNext =>
        obtain ⟨after, result, scheduled⟩ := sound.toSettling.schedule
        exact ⟨after, none, by simp only [call, result, Option.map_some], .scheduled scheduled⟩

theorem Sound.effect_of_call {next : ProcessManager} {filled : Option Slot}
    (sound : Sound manager queue) (result : call manager input = some (next, filled)) :
    Effect manager queue input next filled := by
  cases sound.effect with
  | inl overrun =>
      rw [overrun.1] at result
      cases result
  | inr returned =>
      obtain ⟨_, _, again, effect⟩ := returned
      rw [result] at again
      cases again
      exact effect

theorem Sound.returns (sound : Sound manager queue) (fits : input.fits = true) :
    ∃ next filled, call manager input = some (next, filled) := by
  cases sound.effect with
  | inl overrun =>
      rw [overrun.2] at fits
      cases fits
  | inr returned =>
      obtain ⟨next, filled, result, _⟩ := returned
      exact ⟨next, filled, result⟩

/-- The slot that a call puts behind the ready queue. -/
def arrival (manager : ProcessManager) : Call → Option Slot → Option Slot
  | .schedulerGetNext, _ => manager.currentProcess.filter fun slot => manager.state slot = .running
  | _, filled => filled

/-- One step of a first-in first-out queue. -/
def advance (queue : List Slot) (arriving : Option Slot) (served : Bool) : List Slot :=
  if served then (queue ++ arriving.toList).tail else queue ++ arriving.toList

/-- The conditions under which a call keeps the invariant: a victim is not
queued, and the slot of the current process is refilled only if no other
process is waiting. -/
def Admissible (manager : ProcessManager) : Call → Prop
  | .killProcess target _ => ∀ slot, killSlot manager target = some slot → manager.state slot ≠ .ready
  | .createProcess _ _ _ => freeSlot manager = manager.currentProcess → manager.readyQueue = none
  | .forkProcess => freeSlot manager = manager.currentProcess → manager.readyQueue = none
  | _ => True

theorem requeued_eq : requeued manager queue =
    queue ++ (arrival manager .schedulerGetNext none).toList := by
  cases found : manager.currentProcess with
  | none => simp [requeued, arrival, found]
  | some current =>
      by_cases active : manager.state current = .running <;>
        simp [requeued, arrival, found, active, Option.filter]

theorem Effect.sound {next : ProcessManager} {filled : Option Slot} (sound : Sound manager queue)
    (effect : Effect manager queue input next filled)
    (counted : filled.isSome → manager.nextPid ≠ 0) (admissible : Admissible manager input) :
    Sound next (advance queue (arrival manager input filled) input.reschedules) := by
  cases effect with
  | full creates taken =>
      cases input with
      | createProcess name entry stackTop => simpa [advance, arrival, Call.reschedules] using sound
      | forkProcess => simpa [advance, arrival, Call.reschedules] using sound
      | _ => cases creates
  | @filled _ slot _ creates free pid ready ended named =>
      have apart : manager.currentProcess = some slot → queue = [] := by
        intro found
        have empty : manager.readyQueue = none := by
          cases input with
          | createProcess name entry stackTop => exact admissible (free.trans found.symm)
          | forkProcess => exact admissible (free.trans found.symm)
          | _ => cases creates
        exact (empty ▸ sound.chain : Chain manager.link none queue).eq_nil
      have placing := sound.place free (counted rfl) apart pid ready ended named
      cases input with
      | createProcess name entry stackTop => exact placing
      | forkProcess => exact placing
      | _ => cases creates
  | scheduled scheduled =>
      have settled := sound.toSettling.scheduled_sound scheduled
      rw [requeued_eq] at settled
      exact settled
  | @stopped _ current change _ reschedules stopping found stops scheduled =>
      have settled := (sound.stop (sound.current_first found) stops).scheduled_sound scheduled
      rw [requeued_of_not_running] at settled
      · cases input with
        | exitProcess exitCode => simpa [advance, arrival, Call.reschedules] using settled
        | waitProcess pid => simpa [advance, arrival, Call.reschedules] using settled
        | sleepProcess ms => simpa [advance, arrival, Call.reschedules] using settled
        | schedulerGetNext => exact absurd rfl stopping
        | _ => cases reschedules
      · intro other same
        have here : current = other := Option.some.inj (found.symm.trans same)
        subst here
        simpa [ProcessManager.state] using (stops.not_ready _).2
  | killed => simpa [advance, arrival, Call.reschedules] using sound.kill _ _ admissible

end

end Helios.Process
