import Helios.Scheduler.Model

namespace Helios.Scheduler

open Helios.Data Queues
open Helios.Process (ProcessState)

/-! The ready queue and the blocked queue of `scheduler.c` as lists. -/

section

variable {ι : Type} [DecidableEq ι]
variable {queues after : Queues ι} {ready blocked front rest : List ι} {process current idle : ι}

/-- Both queues are `NULL`-terminated and share no process. -/
structure Lists (queues : Queues ι) (ready blocked : List ι) : Prop where
  chain : Chain queues.link queues.readyQueue ready
  tail : ∀ last, ready.getLast? = some last → queues.readyQueueTail = some last
  waiting : Chain queues.link queues.blockedQueue blocked
  apart : ∀ process ∈ ready, process ∉ blocked

/-- Only links and queue ends differ. -/
structure Relinked (before after : Queues ι) : Prop where
  current : after.current = before.current
  tickCount : after.tickCount = before.tickCount
  state : ∀ process, (after.task process).state = (before.task process).state
  timeSlice : ∀ process, (after.task process).timeSlice = (before.task process).timeSlice
  wakeupTime : ∀ process, (after.task process).wakeupTime = (before.task process).wakeupTime

omit [DecidableEq ι] in
theorem Relinked.refl (queues : Queues ι) : Relinked queues queues :=
  ⟨rfl, rfl, fun _ => rfl, fun _ => rfl, fun _ => rfl⟩

omit [DecidableEq ι] in
theorem Relinked.trans {middle : Queues ι} (first : Relinked queues middle)
    (second : Relinked middle after) : Relinked queues after :=
  ⟨second.current.trans first.current, second.tickCount.trans first.tickCount,
    fun process => (second.state process).trans (first.state process),
    fun process => (second.timeSlice process).trans (first.timeSlice process),
    fun process => (second.wakeupTime process).trans (first.wakeupTime process)⟩

theorem setNext_relinked (queues : Queues ι) (process : ι) (next : Option ι) :
    Relinked queues (queues.setNext process next) :=
  ⟨rfl, rfl, fun _ => update_field fun _ => rfl, fun _ => update_field fun _ => rfl,
    fun _ => update_field fun _ => rfl⟩

theorem Lists.setState (lists : Lists queues ready blocked) (process : ι) (state : ProcessState) :
    Lists (queues.setState process state) ready blocked := by
  refine ⟨?_, lists.tail, ?_, lists.apart⟩
  · rw [link_setState]
    exact lists.chain
  · rw [link_setState]
    exact lists.waiting

theorem Lists.setTimeSlice (lists : Lists queues ready blocked) (process : ι) (timeSlice : Nat) :
    Lists (queues.setTimeSlice process timeSlice) ready blocked := by
  refine ⟨?_, lists.tail, ?_, lists.apart⟩
  · rw [link_setTimeSlice]
    exact lists.chain
  · rw [link_setTimeSlice]
    exact lists.waiting

theorem Lists.setNext (lists : Lists queues ready blocked) (unqueued : process ∉ ready)
    (unblocked : process ∉ blocked) (next : Option ι) :
    Lists (queues.setNext process next) ready blocked := by
  refine ⟨lists.chain.congr fun item member => ?_, lists.tail,
    lists.waiting.congr fun item member => ?_, lists.apart⟩
  · exact link_setNext_other fun same => unqueued (same ▸ member)
  · exact link_setNext_other fun same => unblocked (same ▸ member)

omit [DecidableEq ι] in
theorem Lists.append_apart (lists : Lists queues ready blocked) (unblocked : process ∉ blocked) :
    ∀ item ∈ ready ++ [process], item ∉ blocked := by
  intro item member
  cases List.mem_append.mp member with
  | inl queued => exact lists.apart item queued
  | inr last => exact List.mem_singleton.mp last ▸ unblocked

theorem addToReadyQueue_cases (result : addToReadyQueue queues process = some after) :
    (queues.readyQueue = none ∧ after = { queues.setNext process none with
      readyQueue := some process, readyQueueTail := some process }) ∨
    ∃ head tail, queues.readyQueue = some head ∧
      after = { (queues.setNext process none).setNext tail (some process) with
        readyQueueTail := some process } := by
  have same : (queues.setNext process none).readyQueue = queues.readyQueue := rfl
  cases start : queues.readyQueue with
  | none =>
      simp only [addToReadyQueue, same, start, Option.some.injEq] at result
      exact .inl ⟨rfl, result.symm⟩
  | some head =>
      cases ending : (queues.setNext process none).readyQueueTail with
      | none => simp [addToReadyQueue, same, start, ending] at result
      | some tail =>
          simp only [addToReadyQueue, same, start, ending, Option.some.injEq] at result
          exact .inr ⟨head, tail, rfl, result.symm⟩

theorem addToReadyQueue_relinked (result : addToReadyQueue queues process = some after) :
    Relinked queues after := by
  have cleared := setNext_relinked queues process none
  obtain ⟨_, same⟩ | ⟨_, tail, _, same⟩ := addToReadyQueue_cases result
  · exact cleared.trans (same ▸ ⟨rfl, rfl, fun _ => rfl, fun _ => rfl, fun _ => rfl⟩)
  · exact (cleared.trans (setNext_relinked _ tail (some process))).trans
      (same ▸ ⟨rfl, rfl, fun _ => rfl, fun _ => rfl, fun _ => rfl⟩)

theorem addToReadyQueue_head (result : addToReadyQueue queues process = some after) :
    after.readyQueue = queues.readyQueue.or (some process) := by
  obtain ⟨start, same⟩ | ⟨head, tail, start, same⟩ := addToReadyQueue_cases result
  · simp [start, same]
  · rw [start, same]
    exact start

theorem addToReadyQueue_lists (lists : Lists queues ready blocked) (unqueued : process ∉ ready)
    (unblocked : process ∉ blocked) :
    ∃ after, addToReadyQueue queues process = some after ∧
      Lists after (ready ++ [process]) blocked ∧ Relinked queues after := by
  have cleared := lists.setNext unqueued unblocked none
  have ended : (queues.setNext process none).link process = none := link_setNext_same
  have start : (queues.setNext process none).readyQueue = ready.head? := cleared.chain.head_eq
  cases shape : ready.getLast? with
  | none =>
      have empty := List.getLast?_eq_none_iff.mp shape
      subst empty
      have result : addToReadyQueue queues process = some { queues.setNext process none with
          readyQueue := some process, readyQueueTail := some process } := by
        simp only [addToReadyQueue, start, List.head?_nil]
      refine ⟨_, result, ⟨⟨rfl, ended⟩, fun last single => ?_, cleared.waiting,
        lists.append_apart unblocked⟩, addToReadyQueue_relinked result⟩
      simpa using single
  | some last =>
      obtain ⟨front, same⟩ := List.getLast?_eq_some_iff.mp shape
      subst same
      have ending := cleared.tail last shape
      have unequal : process ≠ last := fun same => unqueued (by simp [same])
      have distinct := lists.chain.nodup
      have later : ∀ item ∈ front, item ≠ last := by
        intro item member same
        exact (List.nodup_append.mp distinct).2.2 item member last (by simp) same
      obtain ⟨head, nonempty⟩ : ∃ head, (front ++ [last]).head? = some head := by
        cases front with
        | nil => exact ⟨last, rfl⟩
        | cons first others => exact ⟨first, rfl⟩
      have result : addToReadyQueue queues process =
          some { (queues.setNext process none).setNext last (some process) with
            readyQueueTail := some process } := by
        simp only [addToReadyQueue, start, nonempty, ending]
      refine ⟨_, result, ⟨cleared.chain.snoc
        (fun item member => link_setNext_other (later item member)) link_setNext_same
        ((link_setNext_other unequal).trans ended), fun final found => ?_,
        cleared.waiting.congr fun item member => link_setNext_other fun same => ?_,
        lists.append_apart unblocked⟩, addToReadyQueue_relinked result⟩
      · simpa using found
      · exact lists.apart last (by simp) (same ▸ member)

variable [Fintype ι]

theorem removeFromReadyQueue_head (lists : Lists queues (process :: rest) blocked) :
    ∃ after, removeFromReadyQueue queues process = some after ∧
      Lists after rest blocked ∧ Relinked queues after := by
  have distinct := lists.chain.nodup
  have unqueued : process ∉ rest := (List.nodup_cons.mp distinct).1
  have unblocked : process ∉ blocked := lists.apart process (by simp)
  have start : queues.readyQueue = some process := lists.chain.1
  have shorter : Lists (dropHead queues process) rest blocked := by
    refine ⟨lists.chain.2, fun last ending => ?_, lists.waiting,
      fun item member => lists.apart item (by simp [member])⟩
    have different : last ≠ process := fun same =>
      unqueued (same ▸ List.mem_of_getLast? ending)
    have tail := lists.tail last (by simp [List.getLast?_cons, ending])
    simp [dropHead, tail, different]
  have moved : Relinked queues (dropHead queues process) :=
    ⟨rfl, rfl, fun _ => rfl, fun _ => rfl, fun _ => rfl⟩
  refine ⟨(dropHead queues process).setNext process none, ?_,
    shorter.setNext unqueued unblocked none, moved.trans (setNext_relinked _ process none)⟩
  rw [removeFromReadyQueue, start]
  exact if_pos rfl

/-- The process that `schedule` picks. -/
def picked (idle : ι) (ready : List ι) : ι := ready.head?.getD idle

/-- What is left of the ready queue then. -/
def remaining (idle : ι) (ready : List ι) : List ι :=
  if picked idle ready = idle then ready else ready.tail

omit [DecidableEq ι] [Fintype ι] in
theorem picked_mem (different : picked idle ready ≠ idle) : picked idle ready ∈ ready := by
  cases ready with
  | nil => exact absurd rfl different
  | cons head rest => simp [picked]

omit [Fintype ι] in
theorem remaining_subset (member : process ∈ remaining idle ready) : process ∈ ready := by
  rw [remaining] at member
  split at member
  · exact member
  · exact List.mem_of_mem_tail member

theorem remove_picked (idle : ι) (lists : Lists queues ready blocked) :
    ∃ after, (if picked idle ready ≠ idle then removeFromReadyQueue queues (picked idle ready)
        else some queues) = some after ∧
      Lists after (remaining idle ready) blocked ∧ Relinked queues after := by
  by_cases same : picked idle ready = idle
  · refine ⟨queues, by simp [same], ?_, .refl queues⟩
    rw [remaining, if_pos same]
    exact lists
  · rw [if_pos same, remaining, if_neg same]
    cases ready with
    | nil => exact absurd rfl same
    | cons head rest => exact removeFromReadyQueue_head lists

/-- Whether `schedule` puts the current process back. -/
def Returns (idle : ι) (queues : Queues ι) (current : ι) : Prop :=
  current ≠ idle ∧ (queues.task current).state = .running

instance (idle : ι) (queues : Queues ι) (current : ι) : Decidable (Returns idle queues current) :=
  inferInstanceAs (Decidable (_ ∧ _))

/-- The ready queue after `schedule` has picked a process. -/
def rescheduled (idle : ι) (queues : Queues ι) (current : ι) (ready : List ι) : List ι :=
  remaining idle ready ++ if Returns idle queues current then [current] else []

theorem reschedule_lists (lists : Lists queues ready blocked) (found : queues.current = some current)
    (outside : Returns idle queues current → current ∉ ready ∧ current ∉ blocked) :
    ∃ after, reschedule idle queues =
        some (after, if picked idle ready ≠ current then some (picked idle ready) else none) ∧
      Lists after (rescheduled idle queues current ready) blocked ∧
      after.current = some current ∧
      ∀ process, (after.task process).state =
        if process = current ∧ Returns idle queues current then .ready
        else (queues.task process).state := by
  have start : queues.readyQueue = ready.head? := lists.chain.head_eq
  obtain ⟨middle, removed, shorter, relinked⟩ :=
    remove_picked idle (lists.setTimeSlice current 100)
  have same : (middle.task current).state = (queues.task current).state := by
    rw [relinked.state, state_setTimeSlice]
  have picks : (queues.setTimeSlice current 100).readyQueue.getD idle = picked idle ready := by
    rw [picked, ← start]
    rfl
  by_cases returns : Returns idle queues current
  · obtain ⟨unqueued, unblocked⟩ := outside returns
    have gone : current ∉ remaining idle ready := fun member => unqueued (remaining_subset member)
    obtain ⟨after, result, added, moved⟩ :=
      addToReadyQueue_lists (shorter.setState current .ready) gone unblocked
    refine ⟨after, ?_, ?_, ?_, ?_⟩
    · have active : current ≠ idle ∧ (middle.task current).state = .running :=
        ⟨returns.1, same.trans returns.2⟩
      simp only [reschedule, found, picks, removed, Option.bind_some, if_pos active, result,
        Option.map_some, ne_eq, Option.some.injEq]
    · rw [rescheduled, if_pos returns]
      exact added
    · rw [moved.current]
      exact relinked.current.trans found
    · intro process
      rw [moved.state, state_setState, relinked.state, state_setTimeSlice]
      simp [returns]
  · refine ⟨middle, ?_, ?_, relinked.current.trans found, ?_⟩
    · have inactive : ¬ (current ≠ idle ∧ (middle.task current).state = .running) := by
        rw [same]
        exact returns
      simp only [reschedule, found, picks, removed, Option.bind_some, if_neg inactive,
        Option.map_some, ne_eq, Option.some.injEq]
    · rw [rescheduled, if_neg returns, List.append_nil]
      exact shorter
    · intro process
      rw [relinked.state, state_setTimeSlice]
      simp [returns]

end

end Helios.Scheduler
