import Helios.Scheduler.Lists

namespace Helios.Scheduler

open Helios.Data Queues
open Helios.Process (ProcessState)

/-! The pass of `timer_tick_handler` over the blocked queue. -/

section

variable {ι : Type} [DecidableEq ι]
variable {queues after : Queues ι} {ready blocked front rest : List ι} {process : ι}

theorem unblock_relinked (queues : Queues ι) (prev : Option ι) (process : ι) :
    Relinked queues (unblock queues prev process) := by
  cases prev with
  | none => exact ⟨rfl, rfl, fun _ => rfl, fun _ => rfl, fun _ => rfl⟩
  | some prev => exact setNext_relinked queues prev (queues.link process)

theorem unblock_lists (lists : Lists queues ready (front ++ process :: rest)) :
    Lists (unblock queues front.getLast? process) ready (front ++ rest) := by
  have narrower : ∀ item ∈ ready, item ∉ front ++ rest := by
    intro item member again
    have outside := lists.apart item member
    simp only [List.mem_append, List.mem_cons, not_or] at outside again
    cases again with
    | inl before => exact outside.1 before
    | inr behind => exact outside.2.2 behind
  cases shape : front.getLast? with
  | none =>
      have empty := List.getLast?_eq_none_iff.mp shape
      subst empty
      exact ⟨lists.chain, lists.tail, lists.waiting.2, narrower⟩
  | some prev =>
      obtain ⟨earlier, same⟩ := List.getLast?_eq_some_iff.mp shape
      subst same
      have chain : Chain queues.link queues.blockedQueue (earlier ++ prev :: process :: rest) := by
        simpa using lists.waiting
      have distinct := chain.nodup
      have apart : ∀ item, item ∈ earlier ∨ item ∈ rest → item ≠ prev := by
        intro item member same
        subst same
        simp only [List.nodup_append, List.nodup_cons, List.mem_cons] at distinct
        cases member with
        | inl before => exact distinct.2.2 item before item (.inl rfl) rfl
        | inr behind => exact distinct.2.1.1 (.inr behind)
      have spliced : Chain (queues.setNext prev (queues.link process)).link queues.blockedQueue
          (earlier ++ prev :: rest) := by
        refine chain.splice (fun item member => link_setNext_other (apart item (.inl member))) ?_
        rw [link_setNext_same]
        exact chain.rest.2.congr fun item member => link_setNext_other (apart item (.inr member))
      refine ⟨lists.chain.congr fun item member => link_setNext_other fun same => ?_, lists.tail,
        ?_, narrower⟩
      · exact lists.apart item member (by simp [same])
      · rw [List.append_assoc]
        exact spliced

omit [DecidableEq ι] in
theorem Lists.behind_eq (lists : Lists queues ready (front ++ rest)) :
    behind queues front.getLast? = rest.head? := by
  cases shape : front.getLast? with
  | none =>
      have empty := List.getLast?_eq_none_iff.mp shape
      subst empty
      exact lists.waiting.head_eq
  | some prev =>
      obtain ⟨earlier, same⟩ := List.getLast?_eq_some_iff.mp shape
      subst same
      have chain : Chain queues.link queues.blockedQueue (earlier ++ prev :: rest) := by
        simpa using lists.waiting
      exact chain.rest.head_eq

/-- The processes of `woken` have become `READY`, and nothing else has changed
but the links. -/
structure Woken (before after : Queues ι) (woken : List ι) : Prop where
  current : after.current = before.current
  state : ∀ process, (after.task process).state =
    if process ∈ woken then .ready else (before.task process).state
  timeSlice : ∀ process, (after.task process).timeSlice = (before.task process).timeSlice

theorem Woken.cons {middle marked : Queues ι} {woken : List ι} (relinked : Relinked queues marked)
    (added : Relinked (marked.setState process .ready) middle) (later : Woken middle after woken) :
    Woken queues after (process :: woken) := by
  refine ⟨?_, fun item => ?_, fun item => ?_⟩
  · rw [later.current, added.current]
    exact relinked.current
  · rw [later.state, added.state, state_setState, relinked.state]
    by_cases same : item = process
    · simp [same]
    · simp [same]
  · rw [later.timeSlice, added.timeSlice, timeSlice_setState, relinked.timeSlice]

/-- Waking a process leaves the others as due as they were. -/
theorem due_relinked {middle marked : Queues ι} (relinked : Relinked queues marked)
    (added : Relinked (marked.setState process .ready) middle) {item : ι} (different : item ≠ process) :
    Due middle item ↔ Due queues item := by
  have marks : (marked.setState process .ready).tickCount = marked.tickCount := rfl
  have wakeups : ((marked.setState process .ready).task item).wakeupTime =
      (marked.task item).wakeupTime := update_field fun _ => rfl
  rw [Due, Due, added.state, state_setState, if_neg different, relinked.state, added.wakeupTime,
    wakeups, relinked.wakeupTime, added.tickCount, marks, relinked.tickCount]

/-- The loop of `timer_tick_handler` moves the processes that are due from one
queue to the other. -/
theorem wakeFrom_lists {steps : Nat} (lists : Lists queues ready (front ++ rest))
    (enough : rest.length < steps) :
    ∃ after, wakeFrom steps queues front.getLast? rest.head? = some after ∧
      Lists after (ready ++ rest.filter fun process => Due queues process)
        (front ++ rest.filter fun process => ¬ Due queues process) ∧
      Woken queues after (rest.filter fun process => Due queues process) := by
  induction rest generalizing steps queues ready front with
  | nil =>
      cases steps with
      | zero => simp at enough
      | succ steps =>
          exact ⟨queues, rfl, by simpa using lists, ⟨rfl, by simp, fun _ => rfl⟩⟩
  | cons process rest ih =>
      cases steps with
      | zero => simp at enough
      | succ steps =>
          have shorter : rest.length < steps := by simpa using enough
          by_cases due : Due queues process
          · have distinct := lists.waiting.nodup
            have outside : process ∉ front ++ rest := by
              simp only [List.nodup_append, List.nodup_cons] at distinct
              simp only [List.mem_append, not_or]
              refine ⟨fun before => distinct.2.2 process before process (by simp) rfl, distinct.2.1.1⟩
            have unqueued : process ∉ ready := fun member => lists.apart process member (by simp)
            have unlinked := unblock_relinked queues front.getLast? process
            have taken := (unblock_lists lists).setState process .ready
            obtain ⟨middle, result, moved, added⟩ := addToReadyQueue_lists taken unqueued outside
            obtain ⟨after, looped, final, changed⟩ := ih moved shorter
            have same : ∀ item ∈ rest, Due middle item ↔ Due queues item := fun item member =>
              due_relinked unlinked added fun here => outside (by simp [← here, member])
            have dues : (rest.filter fun item => Due middle item) =
                rest.filter fun item => Due queues item :=
              List.filter_congr fun item member => decide_eq_decide.mpr (same item member)
            have others : (rest.filter fun item => ¬ Due middle item) =
                rest.filter fun item => ¬ Due queues item :=
              List.filter_congr fun item member => decide_eq_decide.mpr (not_congr (same item member))
            rw [dues, others] at final
            rw [dues] at changed
            refine ⟨after, ?_, ?_, ?_⟩
            · rw [List.head?_cons, wakeFrom, if_pos due, result, Option.bind_some,
                moved.behind_eq]
              exact looped
            · simpa [due] using final
            · rw [List.filter_cons_of_pos (by simpa using due)]
              exact .cons unlinked added changed
          · have onward : Lists queues ready ((front ++ [process]) ++ rest) := by simpa using lists
            obtain ⟨after, looped, final, changed⟩ := ih onward shorter
            refine ⟨after, ?_, by simpa [due] using final, by simpa [due] using changed⟩
            have linked := onward.behind_eq
            simp only [List.getLast?_concat, behind] at linked looped
            rw [List.head?_cons, wakeFrom, if_neg due, linked]
            exact looped

/-- `timer_tick_handler` compares with the count behind the tick. -/
def ticked (queues : Queues ι) : Queues ι :=
  { queues with tickCount := u32 (queues.tickCount + 1) }

variable [Fintype ι]

theorem wake_lists (lists : Lists queues ready blocked) :
    ∃ after, wake queues = some after ∧
      Lists after (ready ++ blocked.filter fun process => Due (ticked queues) process)
        (blocked.filter fun process => ¬ Due (ticked queues) process) ∧
      Woken queues after (blocked.filter fun process => Due (ticked queues) process) := by
  have counted : Lists (ticked queues) ready ([] ++ blocked) :=
    ⟨lists.chain, lists.tail, lists.waiting, lists.apart⟩
  have enough : blocked.length < (Fintype.card ι + 1) * (Fintype.card ι + 1) := by
    have short := lists.waiting.nodup.length_le_card
    nlinarith
  obtain ⟨after, looped, final, changed⟩ := wakeFrom_lists counted enough
  refine ⟨after, ?_, final, ⟨changed.current, changed.state, changed.timeSlice⟩⟩
  rw [← lists.waiting.head_eq] at looped
  exact looped

end

/-- From any two queues, at any tick, the pass ends; it takes the processes that
are due out of the blocked queue and puts them, `READY` and in their order,
behind the ready queue. -/
theorem wake_moves_due {ι : Type} [DecidableEq ι] [Fintype ι] (queues : Queues ι)
    (ready blocked : List ι) (lists : Lists queues ready blocked) :
    ∃ after woken kept, wake queues = some after ∧
      woken = (blocked.filter fun process => (queues.task process).state = .blocked ∧
        (queues.task process).wakeupTime ≤ u32 (queues.tickCount + 1)) ∧
      kept = (blocked.filter fun process => ¬ ((queues.task process).state = .blocked ∧
        (queues.task process).wakeupTime ≤ u32 (queues.tickCount + 1))) ∧
      Lists after (ready ++ woken) kept ∧ (ready ++ woken).Nodup ∧ kept.Nodup ∧
      ∀ process, (after.task process).state =
        if process ∈ woken then .ready else (queues.task process).state := by
  obtain ⟨after, waked, moved, changed⟩ := wake_lists lists
  exact ⟨after, _, _, waked, rfl, rfl, moved, moved.chain.nodup, moved.waiting.nodup, changed.state⟩

instance four_neZero : NeZero 4 := ⟨by decide⟩

/-- Three blocked processes, of which `0` and `1` are due at tick 5. -/
def threeBlocked : Queues (Fin 4) where
  task := ![⟨.blocked, 0, 3, some 1⟩, ⟨.blocked, 0, 5, some 2⟩, ⟨.blocked, 0, 9, none⟩,
    ⟨.running, 0, 0, none⟩]
  readyQueue := none
  readyQueueTail := none
  blockedQueue := some 0
  tickCount := 4
  current := some 3

theorem wake_moves_due_two :
    ∃ after, wake threeBlocked = some after ∧ Lists after [0, 1] [2] := by
  have lists : Lists threeBlocked [] [0, 1, 2] :=
    ⟨rfl, fun last none => by simp at none, ⟨rfl, rfl, rfl, rfl⟩, fun process member => by simp at member⟩
  obtain ⟨after, woken, kept, waked, same, rest, moved, _⟩ :=
    wake_moves_due threeBlocked [] [0, 1, 2] lists
  subst same rest
  exact ⟨after, waked, moved⟩

end Helios.Scheduler
