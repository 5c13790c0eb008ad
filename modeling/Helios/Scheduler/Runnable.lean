import Helios.Data.Run
import Helios.Scheduler.Waking

namespace Helios.Scheduler

open Helios.Data Queues
open Helios.Process (ProcessState)

/-! Which runs of `yield`, `schedule` and `timer_tick_handler` keep every
runnable process, when `get_current_process` returns the process last switched
to. -/

section

variable {ι : Type} [DecidableEq ι] [Fintype ι]

/-- `current_process` follows the argument of `switch_process`. -/
def switchTo (result : Queues ι × Option ι) : Queues ι :=
  { result.1 with current := result.2.or result.1.current }

def advance (idle : ι) (queues : Queues ι) (event : Event) : Option (Queues ι) :=
  (handle idle queues event).map switchTo

def Runnable (queues : Queues ι) (process : ι) : Prop :=
  (OnChain queues.link queues.readyQueue process ∧ (queues.task process).state = .ready) ∨
    (queues.current = some process ∧ (queues.task process).state ≠ .blocked ∧
      (queues.task process).state ≠ .terminated)

/-- How often a process is the current one or queued. -/
def places (queues : Queues ι) (queue : List ι) (process : ι) : Nat :=
  queue.count process + if queues.current = some process then 1 else 0

/-- The ready queue is `NULL`-terminated, and holds every process that was
runnable once, unless it is the current process. -/
def Preserved (idle : ι) (before after : Queues ι) : Prop :=
  ∃ queue, Chain after.link after.readyQueue queue ∧
    ∀ process, process ≠ idle → Runnable before process → places after queue process = 1

/-- A time slice that is not used up keeps `schedule` from switching. -/
def Stays (idle : ι) (queues : Queues ι) (current : ι) : Prop :=
  current ≠ idle ∧ 0 < (queues.task current).timeSlice

instance (idle : ι) (queues : Queues ι) (current : ι) : Decidable (Stays idle queues current) :=
  inferInstanceAs (Decidable (_ ∧ _))

/-- A process yields only with a used-up time slice, and a process whose time
slice is used up otherwise is still marked `RUNNING`. -/
def Safe (idle : ι) (queues : Queues ι) (event : Event) : Prop :=
  ∀ current, queues.current = some current → current ≠ idle →
    match event with
    | .yield => (queues.task current).timeSlice = 0
    | _ => 0 < (queues.task current).timeSlice ∨ (queues.task current).state = .running

/-- The invariant of the runs: the current process is not queued. -/
structure Held (idle : ι) (queues : Queues ι) (ready blocked : List ι) : Prop where
  lists : Lists queues ready blocked
  queued : ∀ process ∈ ready, (queues.task process).state = .ready
  started : ∃ current, queues.current = some current
  apart : ∀ current, queues.current = some current → current ≠ idle →
    current ∉ ready ∧ current ∉ blocked
  live : ∀ current, queues.current = some current → current ≠ idle →
    (queues.task current).state = .running ∨ (queues.task current).state = .ready

variable {idle current process : ι} {queues after : Queues ι} {ready blocked : List ι}

theorem schedule_stays (found : queues.current = some current) (stays : Stays idle queues current) :
    (schedule idle queues).map switchTo =
      some (queues.setTimeSlice current ((queues.task current).timeSlice - 1)) := by
  have kept : current ≠ idle ∧ 0 < (queues.task current).timeSlice := stays
  simp only [schedule, found, if_pos kept, Option.map_some, switchTo, Option.none_or]

theorem schedule_expired (found : queues.current = some current)
    (expired : ¬ Stays idle queues current) : schedule idle queues = reschedule idle queues := by
  have used : ¬ (current ≠ idle ∧ 0 < (queues.task current).timeSlice) := expired
  simp only [schedule, found, if_neg used]

omit [Fintype ι] in
/-- Picking a process moves it out of the queue. -/
theorem count_remaining (ready : List ι) (different : process ≠ idle) :
    (remaining idle ready).count process + (if picked idle ready = process then 1 else 0) =
      ready.count process := by
  by_cases same : picked idle ready = idle
  · rw [remaining, if_pos same, same, if_neg different.symm, Nat.add_zero]
  · rw [remaining, if_neg same]
    cases ready with
    | nil => exact absurd rfl same
    | cons head rest =>
        by_cases equal : head = process
        · simp [picked, equal]
        · simp [picked, equal]

omit [Fintype ι] in
theorem places_rescheduled (different : process ≠ idle) :
    places { after with current := some (picked idle ready) }
        (rescheduled idle queues current ready) process =
      ready.count process + if Returns idle queues current ∧ current = process then 1 else 0 := by
  rw [places, rescheduled, List.count_append, ← count_remaining ready different]
  by_cases returns : Returns idle queues current
  · simp [returns, List.count_singleton]
    omega
  · simp [returns]

omit [Fintype ι] in
theorem picked_not_rescheduled (distinct : ready.Nodup) (different : picked idle ready ≠ idle)
    (outside : Returns idle queues current → current ∉ ready) :
    picked idle ready ∉ rescheduled idle queues current ready := by
  intro again
  have once := List.nodup_iff_count_le_one.mp distinct (picked idle ready)
  have total := @places_rescheduled _ _ idle current (picked idle ready) queues queues ready different
  have positive := List.count_pos_iff.mpr again
  rw [places, if_pos rfl] at total
  split at total
  · rename_i returns
    exact outside returns.1 (returns.2 ▸ picked_mem different)
  · omega

/-- Rescheduling keeps every queued process, and the current one if it is
marked `RUNNING`. -/
theorem reschedule_held (lists : Lists queues ready blocked)
    (queued : ∀ process ∈ ready, (queues.task process).state = .ready)
    (found : queues.current = some current)
    (outside : Returns idle queues current → current ∉ ready ∧ current ∉ blocked) :
    ∃ after, (reschedule idle queues).map switchTo = some after ∧
      Held idle after (rescheduled idle queues current ready) blocked ∧
      ∀ process, process ≠ idle → places after (rescheduled idle queues current ready) process =
        ready.count process + if Returns idle queues current ∧ current = process then 1 else 0 := by
  obtain ⟨after, result, moved, same, states⟩ := reschedule_lists lists found outside
  have final : (reschedule idle queues).map switchTo =
      some { after with current := some (picked idle ready) } := by
    rw [result]
    by_cases unchanged : picked idle ready = current
    · simp [switchTo, unchanged, same]
    · simp [switchTo, unchanged]
  have settled : ∀ process, (queues.task process).state = .ready →
      (after.task process).state = .ready := by
    intro process ready
    rw [states]
    split
    · rfl
    · exact ready
  refine ⟨_, final, ⟨⟨moved.chain, moved.tail, moved.waiting, moved.apart⟩,
    fun process member => ?_, ⟨_, rfl⟩, ?_, ?_⟩, fun process different => places_rescheduled different⟩
  · rw [rescheduled, List.mem_append] at member
    cases member with
    | inl waiting => exact settled process (queued process (remaining_subset waiting))
    | inr last =>
        by_cases returns : Returns idle queues current
        · simp only [if_pos returns, List.mem_singleton] at last
          rw [states, if_pos ⟨last, returns⟩]
        · simp [returns] at last
  · intro next started different
    have same : picked idle ready = next := Option.some.inj started
    subst same
    refine ⟨picked_not_rescheduled lists.chain.nodup different fun returns => (outside returns).1, ?_⟩
    exact lists.apart _ (picked_mem different)
  · intro next started different
    have same : picked idle ready = next := Option.some.inj started
    subst same
    exact .inr (settled _ (queued _ (picked_mem different)))

theorem schedule_held (idle : ι) (lists : Lists queues ready blocked)
    (queued : ∀ process ∈ ready, (queues.task process).state = .ready)
    (found : queues.current = some current)
    (outside : Stays idle queues current ∨ Returns idle queues current →
      current ∉ ready ∧ current ∉ blocked)
    (live : current ≠ idle →
      (queues.task current).state = .running ∨ (queues.task current).state = .ready) :
    ∃ after queue, (schedule idle queues).map switchTo = some after ∧
      Held idle after queue blocked ∧
      ∀ process, process ≠ idle → places after queue process = ready.count process +
        if (Stays idle queues current ∨ Returns idle queues current) ∧ current = process then 1
        else 0 := by
  by_cases stays : Stays idle queues current
  · refine ⟨_, ready, schedule_stays found stays, ⟨lists.setTimeSlice _ _, ?_, ⟨current, found⟩, ?_, ?_⟩, ?_⟩
    · intro process member
      rw [state_setTimeSlice]
      exact queued process member
    · intro other started _
      have same := Option.some.inj (found.symm.trans started)
      subst same
      exact outside (.inl stays)
    · intro other started different
      have same := Option.some.inj (found.symm.trans started)
      subst same
      rw [state_setTimeSlice]
      exact live different
    · intro process _
      have same : (queues.setTimeSlice current ((queues.task current).timeSlice - 1)).current =
          some current := found
      simp [places, same, stays]
  · obtain ⟨after, result, held, counts⟩ :=
      reschedule_held lists queued found (fun returns => outside (.inr returns))
    refine ⟨after, _, ?_, held, ?_⟩
    · rw [schedule_expired found stays]
      exact result
    · simpa [stays] using counts

/-- What a call does to the processes that were runnable before it. -/
structure Outcome (idle : ι) (before : Queues ι) (current : ι) (ready : List ι) (event : Event)
    (after : Queues ι) : Prop where
  result : advance idle before event = some after
  counted : ∃ queue, Chain after.link after.readyQueue queue ∧
    ∀ process, process ≠ idle → process ∈ ready ∨ process = current →
      (places after queue process = 1 ↔ (process = current → Safe idle before event))
  held : Safe idle before event → ∃ ready blocked, Held idle after ready blocked

omit [Fintype ι] in
theorem Held.count_ready (held : Held idle queues ready blocked)
    (found : queues.current = some current) (different : process ≠ idle)
    (runnable : process ∈ ready ∨ process = current) :
    ready.count process = if process = current then 0 else 1 := by
  by_cases same : process = current
  · subst same
    rw [if_pos rfl]
    exact List.count_eq_zero.mpr (held.apart process found different).1
  · rw [if_neg same]
    exact List.count_eq_one_of_mem held.lists.chain.nodup (runnable.resolve_right same)

theorem Outcome.of_counts {event : Event} {queue others : List ι} (retained : Prop)
    [Decidable retained] (held : Held idle queues ready blocked)
    (found : queues.current = some current) (result : advance idle queues event = some after)
    (kept : Held idle after queue others)
    (counts : ∀ process, process ≠ idle → process ∈ ready ∨ process = current →
      places after queue process =
        ready.count process + if retained ∧ current = process then 1 else 0)
    (agrees : current ≠ idle → (retained ↔ Safe idle queues event)) :
    Outcome idle queues current ready event after := by
  refine ⟨result, ⟨queue, kept.lists.chain, fun process different runnable => ?_⟩,
    fun _ => ⟨queue, others, kept⟩⟩
  rw [counts process different runnable, held.count_ready found different runnable]
  by_cases same : process = current
  · subst same
    rw [← agrees different]
    by_cases retains : retained
    · simp [retains]
    · simp [retains]
  · simp [same, Ne.symm same]

omit [DecidableEq ι] [Fintype ι] in
theorem safe_iff (found : queues.current = some current) (different : current ≠ idle)
    {event : Event} (unyielding : event ≠ .yield) :
    Stays idle queues current ∨ Returns idle queues current ↔ Safe idle queues event := by
  cases event with
  | yield => exact absurd rfl unyielding
  | tick => simp [Safe, Stays, Returns, found, different]
  | schedule => simp [Safe, Stays, Returns, found, different]

theorem Held.schedule (held : Held idle queues ready blocked)
    (found : queues.current = some current) :
    ∃ after, Outcome idle queues current ready .schedule after := by
  obtain ⟨after, queue, result, kept, counts⟩ := schedule_held idle held.lists held.queued found
    (fun stays => held.apart current found (stays.elim And.left And.left)) (held.live current found)
  exact ⟨after, .of_counts _ held found result kept (fun process different _ => counts process different)
    (fun different => safe_iff found different (by simp))⟩

theorem Held.tick (held : Held idle queues ready blocked) (found : queues.current = some current) :
    ∃ after, Outcome idle queues current ready .tick after := by
  obtain ⟨middle, waked, lists, changed⟩ := wake_lists held.lists
  have unwoken : current ≠ idle → current ∉ blocked.filter fun process => Due (ticked queues) process :=
    fun different member => (held.apart current found different).2 (List.mem_of_mem_filter member)
  have sameState : current ≠ idle →
      (middle.task current).state = (queues.task current).state := by
    intro different
    rw [changed.state, if_neg (unwoken different)]
  have sameStays : Stays idle middle current ↔ Stays idle queues current := by
    rw [Stays, Stays, changed.timeSlice]
  have sameReturns : Returns idle middle current ↔ Returns idle queues current := by
    constructor
    · exact fun returns => ⟨returns.1, (sameState returns.1).symm.trans returns.2⟩
    · exact fun returns => ⟨returns.1, (sameState returns.1).trans returns.2⟩
  obtain ⟨after, queue, result, kept, counts⟩ := schedule_held idle lists
    (fun process member => by
      rw [changed.state]
      split
      · rfl
      · rename_i unchanged
        simp only [List.mem_append, unchanged, or_false] at member
        exact held.queued process member)
    (changed.current.trans found)
    (fun stays => by
      have different : current ≠ idle := stays.elim And.left And.left
      have apart := held.apart current found different
      simp only [List.mem_append, not_or]
      exact ⟨⟨apart.1, unwoken different⟩, fun member => apart.2 (List.mem_of_mem_filter member)⟩)
    (fun different => by
      rw [sameState different]
      exact held.live current found different)
  refine ⟨after, .of_counts _ held found ?_ kept (fun process different runnable => ?_)
    (fun different => safe_iff found different (by simp))⟩
  · rw [advance, handle, timerTickHandler, waked, Option.bind_some]
    exact result
  · have absent : (blocked.filter fun process => Due (ticked queues) process).count process = 0 := by
      refine List.count_eq_zero.mpr fun member => ?_
      cases runnable with
      | inl ready => exact held.lists.apart process ready (List.mem_of_mem_filter member)
      | inr same => exact unwoken (same ▸ different) (same ▸ member)
    rw [counts process different, List.count_append, absent, Nat.add_zero]
    simp only [sameStays, sameReturns]

omit [Fintype ι] in
theorem Held.requeue (held : Held idle queues ready blocked) (found : queues.current = some current)
    (different : current ≠ idle) :
    ∃ middle, Scheduler.requeue idle queues = some middle ∧
      Lists middle (ready ++ [current]) blocked ∧ middle.current = some current ∧
      (∀ process ∈ ready ++ [current], (middle.task process).state = .ready) ∧
      (middle.task current).timeSlice = (queues.task current).timeSlice := by
  obtain ⟨unqueued, unblocked⟩ := held.apart current found different
  obtain ⟨middle, added, lists, relinked⟩ :=
    addToReadyQueue_lists (held.lists.setState current .ready) unqueued unblocked
  refine ⟨middle, ?_, lists, relinked.current.trans found, fun process member => ?_, ?_⟩
  · simp only [Scheduler.requeue, found, if_pos different, added]
  · rw [relinked.state, state_setState]
    split
    · rfl
    · rename_i other
      simp only [List.mem_append, List.mem_singleton, other, or_false] at member
      exact held.queued process member
  · rw [relinked.timeSlice, timeSlice_setState]

/-- A yielding process is queued, and then current and queued at once if its
time slice is not used up. -/
theorem Held.yield (held : Held idle queues ready blocked) (found : queues.current = some current) :
    ∃ after, Outcome idle queues current ready .yield after := by
  by_cases resting : current = idle
  · subst resting
    have unchanged : Scheduler.requeue current queues = some queues := by
      simp [Scheduler.requeue, found]
    obtain ⟨after, queue, result, kept, counts⟩ := schedule_held current held.lists held.queued found
      (fun stays => absurd rfl (stays.elim And.left And.left)) (fun different => absurd rfl different)
    refine ⟨after, .of_counts _ held found ?_ kept (fun process different _ => counts process different)
      (fun different => absurd rfl different)⟩
    rw [advance, handle, Scheduler.yield, unchanged, Option.bind_some]
    exact result
  · obtain ⟨middle, requeued, lists, nowCurrent, queued, slice⟩ := held.requeue found resting
    have marked : (middle.task current).state = .ready := queued current (by simp)
    have staying : ¬ Returns idle middle current := by
      intro returns
      rw [Returns, marked] at returns
      cases returns.2
    by_cases used : (queues.task current).timeSlice = 0
    · have expired : ¬ Stays idle middle current := by
        intro stays
        rw [Stays, slice, used] at stays
        exact absurd stays.2 (Nat.lt_irrefl 0)
      obtain ⟨after, queue, result, kept, counts⟩ := schedule_held idle lists queued nowCurrent
        (fun stays => absurd stays (by simp [expired, staying])) (fun _ => .inr marked)
      refine ⟨after, .of_counts True held found ?_ kept
        (fun process different _ => ?_) (fun _ => ?_)⟩
      · rw [advance, handle, Scheduler.yield, requeued, Option.bind_some]
        exact result
      · rw [counts process different, List.count_append, List.count_singleton]
        simp [expired, staying]
      · simp [Safe, found, used]
    · have stays : Stays idle middle current := ⟨resting, by rw [slice]; omega⟩
      have early : ¬ Safe idle queues .yield := fun safe => used (safe current found resting)
      refine ⟨middle.setTimeSlice current ((middle.task current).timeSlice - 1), ?_,
        ⟨_, (lists.setTimeSlice _ _).chain, fun process different runnable => ?_⟩,
        fun safe => absurd safe early⟩
      · rw [advance, handle, Scheduler.yield, requeued, Option.bind_some]
        exact schedule_stays nowCurrent stays
      · have same : (middle.setTimeSlice current ((middle.task current).timeSlice - 1)).current =
            some current := nowCurrent
        rw [places, same, List.count_append, List.count_singleton,
          held.count_ready found different runnable]
        by_cases equal : process = current
        · simp [equal, early]
        · simp [equal, Ne.symm equal]

theorem Held.outcome (held : Held idle queues ready blocked) (found : queues.current = some current)
    (event : Event) : ∃ after, Outcome idle queues current ready event after := by
  cases event with
  | tick => exact held.tick found
  | yield => exact held.yield found
  | schedule => exact held.schedule found

omit [DecidableEq ι] [Fintype ι] in
theorem Held.runnable_iff (held : Held idle queues ready blocked)
    (found : queues.current = some current) (different : process ≠ idle) :
    Runnable queues process ↔ process ∈ ready ∨ process = current := by
  rw [Runnable, held.lists.chain.mem_iff, found]
  constructor
  · intro runnable
    exact runnable.imp And.left fun active => (Option.some.inj active.1).symm
  · intro place
    cases place with
    | inl member => exact .inl ⟨member, held.queued process member⟩
    | inr same =>
        subst same
        have live := held.live process found different
        refine .inr ⟨rfl, fun blocked => ?_, fun terminated => ?_⟩
        · simp [blocked] at live
        · simp [terminated] at live

/-- One call keeps the runnable processes exactly when it is safe. -/
theorem Outcome.preserved_iff {event : Event} (held : Held idle queues ready blocked)
    (found : queues.current = some current)
    (outcome : Outcome idle queues current ready event after) :
    Preserved idle queues after ↔ Safe idle queues event := by
  obtain ⟨queue, chain, counted⟩ := outcome.counted
  constructor
  · intro preserved other started different
    obtain ⟨again, chained, once⟩ := preserved
    have same := chained.unique chain
    subst same
    have equal := Option.some.inj (found.symm.trans started)
    subst equal
    have runnable := (held.runnable_iff found different).mpr (.inr rfl)
    exact (counted current different (.inr rfl)).mp (once current different runnable) rfl
      current found different
  · intro safe
    refine ⟨queue, chain, fun process different runnable => ?_⟩
    exact (counted process different ((held.runnable_iff found different).mp runnable)).mpr fun _ => safe

theorem Held.run {events : List Event} (held : ∃ ready blocked, Held idle queues ready blocked)
    (safe : Along (advance idle) (Safe idle) queues events) :
    ∃ final, run (advance idle) queues events = some final ∧
      ∃ ready blocked, Held idle final ready blocked := by
  refine run_total (fun queues => ∃ ready blocked, Held idle queues ready blocked) safe held ?_
  rintro queues event ⟨ready, blocked, held⟩ safe
  obtain ⟨current, found⟩ := held.started
  obtain ⟨after, outcome⟩ := held.outcome found event
  exact ⟨after, outcome.result, outcome.held safe⟩

end

/-- After any run of safe calls, the next call returns, and keeps every
runnable process exactly once in the ready queue or on the processor exactly
when it is safe itself. -/
theorem runnable_preserved_iff {ι : Type} [DecidableEq ι] [Fintype ι] (idle current : ι)
    (start : Queues ι) (ready blocked : List ι) (events : List Event)
    (lists : Lists start ready blocked)
    (queued : ∀ process ∈ ready, (start.task process).state = .ready)
    (found : start.current = some current)
    (running : (start.task current).state = .running)
    (apart : current ∉ ready ∧ current ∉ blocked)
    (safe : Along (advance idle) (Safe idle) start events) :
    ∃ final, run (advance idle) start events = some final ∧
      ∀ event, ∃ after, advance idle final event = some after ∧
        (Preserved idle final after ↔ Safe idle final event) := by
  have held : Held idle start ready blocked := by
    refine ⟨lists, queued, ⟨current, found⟩, fun other same _ => ?_, fun other same _ => ?_⟩
    · exact Option.some.inj (found.symm.trans same) ▸ apart
    · exact Option.some.inj (found.symm.trans same) ▸ .inl running
  obtain ⟨final, reached, finalReady, finalBlocked, kept⟩ := Held.run ⟨ready, blocked, held⟩ safe
  refine ⟨final, reached, fun event => ?_⟩
  obtain ⟨active, started⟩ := kept.started
  obtain ⟨after, outcome⟩ := kept.outcome started event
  exact ⟨after, outcome.result, outcome.preserved_iff kept started⟩

instance three_neZero : NeZero 3 := ⟨by decide⟩

/-- Three processes: `0` is idle, `1` runs with a time slice of `slice`, and
`2` is queued. -/
def threeProcesses (slice : Nat) : Queues (Fin 3) where
  task := ![⟨.ready, 0, 0, none⟩, ⟨.running, slice, 0, none⟩, ⟨.ready, 100, 0, none⟩]
  readyQueue := some 2
  readyQueueTail := some 2
  blockedQueue := none
  tickCount := 0
  current := some 1

theorem threeProcesses_lists (slice : Nat) : Lists (threeProcesses slice) [2] [] := by
  refine ⟨⟨rfl, rfl⟩, fun last single => ?_, rfl, fun process _ member => ?_⟩
  · simpa [threeProcesses] using single
  · cases member

theorem runnable_preserved_iff_three :
    ∃ final, run (advance 0) (threeProcesses 0) [.schedule] = some final ∧
      ∀ event, ∃ after, advance 0 final event = some after ∧
        (Preserved 0 final after ↔ Safe 0 final event) := by
  refine runnable_preserved_iff 0 1 (threeProcesses 0) [2] [] [.schedule] (threeProcesses_lists 0)
    ?_ rfl rfl ⟨by decide, by decide⟩ ⟨?_, fun next _ => trivial⟩
  · intro process member
    rw [List.mem_singleton.mp member]
    rfl
  · intro current found _
    cases found
    exact .inr rfl

/-- A process that yields before its time slice is used up stays current and
is queued as well. -/
theorem yielding_process_duplicated :
    Lists (threeProcesses 5) [2] [] ∧ ((threeProcesses 5).task 2).state = .ready ∧
      (threeProcesses 5).current = some 1 ∧ ((threeProcesses 5).task 1).state = .running ∧
      ∃ after, advance 0 (threeProcesses 5) .yield = some after ∧
        ¬ Preserved 0 (threeProcesses 5) after := by
  refine ⟨threeProcesses_lists 5, rfl, rfl, rfl, _, rfl, fun preserved => ?_⟩
  obtain ⟨queue, chain, once⟩ := preserved
  have same : queue = [2, 1] := chain.unique ⟨rfl, rfl, rfl⟩
  subst same
  have twice := once 1 (by decide) (.inr ⟨rfl, by decide, by decide⟩)
  exact absurd twice (by decide)

end Helios.Scheduler
