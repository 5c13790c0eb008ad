import Helios.Process.Runs

namespace Helios.Process

open Helios.Data ProcessManager

/-! When a ready process gets its turn. -/

/-- The number of calls of a run that choose a process to run. -/
def reschedules (calls : List Call) : Nat := calls.countP Call.reschedules

section

variable {manager next final : ProcessManager} {queue : List Slot} {slot : Slot}
variable {input : Call} {filled : Option Slot} {calls : List Call} {position : Nat}

/-- The conditions under which a run keeps the invariant. -/
def Fine (manager : ProcessManager) (input : Call) : Prop :=
  Counted (2 ^ 32) manager input ∧ input.kills = false

/-- Nobody who waits is moved back. -/
theorem call_waiting (healthy : Healthy manager queue) (fine : Fine manager input)
    (result : call manager input = some (next, filled))
    (there : queue[position + if input.reschedules then 1 else 0]? = some slot) :
    ∃ after, Healthy next after ∧ after[position]? = some slot := by
  refine ⟨_, call_healthy healthy fine.1 fine.2 result, ?_⟩
  cases serving : input.reschedules with
  | true =>
      rw [serving] at there
      exact advance_forward there
  | false =>
      rw [serving] at there
      have there : queue[position]? = some slot := there
      have inside := (List.getElem?_eq_some_iff.mp there).1
      rw [advance, if_neg (by simp), List.getElem?_append_left inside]
      exact there

/-- The process at the head is chosen. -/
theorem call_serves (healthy : Healthy manager queue)
    (result : call manager input = some (next, filled)) (serving : input.reschedules = true)
    (first : queue.head? = some slot) :
    next.currentProcess = some slot ∧ next.state slot = .running := by
  have chosen : ∀ before, Scheduled before queue next →
      next.currentProcess = some slot ∧ next.state slot = .running := by
    intro before scheduled
    have same : selected before queue = slot := selected_of_head first
    exact ⟨scheduled.current.trans (congrArg _ same), same ▸ scheduled.choice_running⟩
  cases healthy.toSound.effect_of_call result with
  | full creates _ => cases input <;> cases creates <;> cases serving
  | filled creates _ _ _ _ _ => cases input <;> cases creates <;> cases serving
  | scheduled scheduled => exact chosen _ scheduled
  | stopped _ _ _ _ scheduled => exact chosen _ scheduled
  | killed => cases serving

/-- Each reschedule brings a waiting process one position forward. -/
theorem run_waiting (healthy : Healthy manager queue) (along : Along step Fine manager calls)
    (reached : run step manager calls = some final)
    (there : queue[position + reschedules calls]? = some slot) :
    ∃ after, Healthy final after ∧ after[position]? = some slot := by
  induction calls generalizing manager queue with
  | nil =>
      obtain rfl : manager = final := Option.some.inj reached
      exact ⟨queue, healthy, there⟩
  | cons input calls ih =>
      obtain ⟨next, taken, rest⟩ := run_cons_eq_some.mp reached
      obtain ⟨⟨_, filled⟩, result, rfl⟩ := Option.map_eq_some_iff.mp taken
      rw [reschedules, List.countP_cons, ← Nat.add_assoc] at there
      obtain ⟨after, kept, moved⟩ := call_waiting healthy along.1 result there
      exact ih kept (along.2 _ taken) rest moved

/-- In a run that kills nothing, a ready process has a turn: it stays ready for
that many reschedules and is chosen by the next one, and no more than 63 others
are chosen before it. -/
theorem ready_process_turn (kernelPageDir : Nat) (calls : List Call)
    (reached : run step (initProcessManager kernelPageDir) calls = some manager)
    (ready : manager.state slot = .ready)
    (unkilled : ∀ input ∈ calls, input.kills = false)
    (bound : creations (initProcessManager kernelPageDir) calls < 2 ^ 32) :
    ∃ turn < 64, ∀ more final, (∀ input ∈ more, input.kills = false) →
      creations (initProcessManager kernelPageDir) (calls ++ more) < 2 ^ 32 →
      run step manager more = some final →
      (reschedules more ≤ turn → final.state slot = .ready) ∧
      ∀ front input, more = front ++ [input] → input.reschedules = true →
        reschedules front = turn →
        final.currentProcess = some slot ∧ final.state slot = .running := by
  obtain ⟨queue, healthy⟩ := run_healthy unkilled bound reached
  obtain ⟨turn, there⟩ := List.mem_iff_getElem?.mp ((healthy.toSound.ready_iff slot).mpr ready)
  have early : turn < 64 := by
    have inside := (List.getElem?_eq_some_iff.mp there).1
    have few := healthy.chain.nodup.length_le_card
    rw [Fintype.card_fin] at few
    omega
  refine ⟨turn, early, fun more final alive few taken => ?_⟩
  have along : Along step Fine manager more := by
    have all : ∀ input ∈ calls ++ more, input.kills = false := by
      intro input member
      exact (List.mem_append.mp member).elim (unkilled input) (alive input)
    exact (along_append (along_unkilled all few) reached).2
  constructor
  · intro soon
    have waits : queue[turn - reschedules more + reschedules more]? = some slot := by
      rw [Nat.sub_add_cancel soon]
      exact there
    obtain ⟨after, kept, moved⟩ := run_waiting healthy along taken waits
    exact (kept.toSound.ready_iff slot).mp (List.mem_of_getElem? moved)
  · rintro front input rfl serving counted
    obtain ⟨middle, first, last⟩ := Option.bind_eq_some_iff.mp (run_append ▸ taken)
    obtain ⟨next, chosen, same⟩ := run_cons_eq_some.mp last
    obtain rfl : next = final := Option.some.inj same
    obtain ⟨⟨_, filled⟩, result, rfl⟩ := Option.map_eq_some_iff.mp chosen
    have waits : queue[0 + reschedules front]? = some slot := by
      rw [Nat.zero_add, counted]
      exact there
    obtain ⟨after, kept, moved⟩ := run_waiting healthy (along_append along first).1 first waits
    exact call_serves kept result serving (by rw [List.head?_eq_getElem?]; exact moved)

/-- The child of the first fork. -/
theorem ready_process_turn_child :
    ∃ manager, run step (initProcessManager 0) [.createProcess [97] 4096 8192, .forkProcess] =
        some manager ∧ manager.state 1 = .ready ∧
      ∃ turn < 64, ∀ more final, (∀ input ∈ more, input.kills = false) →
        creations (initProcessManager 0) ([.createProcess [97] 4096 8192, .forkProcess] ++ more) <
          2 ^ 32 →
        run step manager more = some final → reschedules more ≤ turn → final.state 1 = .ready := by
  refine ⟨_, rfl, rfl, ?_⟩
  obtain ⟨turn, early, turns⟩ := @ready_process_turn _ 1 0
    [.createProcess [97] 4096 8192, .forkProcess] rfl rfl (by decide) (by decide)
  exact ⟨turn, early, fun more final alive few taken => (turns more final alive few taken).1⟩

end

end Helios.Process
