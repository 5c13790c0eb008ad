import Helios.Scheduler.Lists

namespace Helios.Scheduler

open Helios.Data Queues

/-! The ready queue over sequences of insertions and removals. -/

section

variable {ι : Type} [DecidableEq ι]
variable {queues after : Queues ι} {ready rest : List ι} {process head : ι} {steps : Nat}

def initScheduler (queues : Queues ι) : Queues ι :=
  { queues with readyQueue := none, readyQueueTail := none, blockedQueue := none }

/-- The queue of `ready_queue` and `ready_queue_tail`, nothing being blocked. -/
structure Tailed (queues : Queues ι) (ready : List ι) : Prop where
  lists : Lists queues ready []
  tail : queues.readyQueueTail = ready.getLast?

omit [DecidableEq ι] in
theorem initScheduler_tailed (queues : Queues ι) : Tailed (initScheduler queues) [] where
  lists := ⟨rfl, fun _ ending => absurd ending (by simp), rfl, fun _ member => absurd member (by simp)⟩
  tail := rfl

omit [DecidableEq ι] in
theorem Tailed.head_none_iff (tailed : Tailed queues ready) :
    queues.readyQueue = none ↔ queues.readyQueueTail = none := by
  rw [tailed.lists.chain.head_eq, tailed.tail, List.head?_eq_none_iff, List.getLast?_eq_none_iff]

theorem Tailed.setNext (tailed : Tailed queues ready) (unqueued : process ∉ ready)
    (next : Option ι) : Tailed (queues.setNext process next) ready :=
  ⟨tailed.lists.setNext unqueued (by simp) next, tailed.tail⟩

theorem Tailed.append (tailed : Tailed queues ready) (unqueued : process ∉ ready) :
    ∃ after, addToReadyQueue queues process = some after ∧ Tailed after (ready ++ [process]) := by
  obtain ⟨after, result, lists, _⟩ := addToReadyQueue_lists tailed.lists unqueued (by simp)
  refine ⟨after, result, lists, ?_⟩
  obtain ⟨_, same⟩ | ⟨_, _, _, same⟩ := addToReadyQueue_cases result <;>
    simp [same]

/-- The walk stops at the process before the one it looks for. -/
theorem findPrev_before {front back : List ι} {prev : ι}
    (chain : Chain queues.link (some head) (front ++ prev :: process :: back))
    (enough : front.length < steps) : findPrev queues process steps head = some prev := by
  induction front generalizing head steps with
  | nil =>
      obtain ⟨started, linked, _⟩ := chain
      have same := Option.some.inj started
      subst same
      cases steps with
      | zero => simp at enough
      | succ steps => simp [findPrev, linked]
  | cons first others ih =>
      have distinct := chain.nodup
      obtain ⟨started, tail⟩ := chain
      have same := Option.some.inj started
      subst same
      cases steps with
      | zero => simp at enough
      | succ steps =>
          obtain ⟨following, linked⟩ : ∃ following, queues.link head = some following := by
            rw [tail.head_eq]
            cases others <;> exact ⟨_, rfl⟩
          rw [linked] at tail
          have different : following ≠ process := by
            have start := tail.head_eq
            rintro rfl
            cases others with
            | nil =>
                have same : following = prev := by simpa using start
                simp [same] at distinct
            | cons second others =>
                have same : following = second := by simpa using start
                simp [same] at distinct
          rw [findPrev, linked]
          simp only [different, if_false]
          exact ih tail (by simpa using enough)

/-- Past an absent process the walk stops at the last one. -/
theorem findPrev_absent (chain : Chain queues.link (some head) ready) (absent : process ∉ ready)
    (enough : ready.length ≤ steps) : findPrev queues process steps head = ready.getLast? := by
  induction ready generalizing head steps with
  | nil => cases chain
  | cons first others ih =>
      obtain ⟨started, tail⟩ := chain
      have same := Option.some.inj started
      subst same
      cases steps with
      | zero => simp at enough
      | succ steps =>
          cases others with
          | nil =>
              have ended : queues.link head = none := tail
              simp [findPrev, ended]
          | cons second others =>
              have linked := tail.1
              rw [linked] at tail
              have different : second ≠ process := fun same => absent (by simp [same])
              rw [findPrev, linked]
              simp only [different, if_false, List.getLast?_cons_cons]
              exact ih tail (fun member => absent (by simp [member])) (by simpa using enough)

variable [Fintype ι]

theorem Tailed.remove_head (tailed : Tailed queues (process :: rest)) :
    ∃ after, removeFromReadyQueue queues process = some after ∧ Tailed after rest := by
  obtain ⟨after, result, lists, _⟩ := removeFromReadyQueue_head tailed.lists
  refine ⟨after, result, lists, ?_⟩
  have same : after = (dropHead queues process).setNext process none := by
    rw [removeFromReadyQueue, tailed.lists.chain.1] at result
    exact (Option.some.inj (result.symm.trans (if_pos rfl)))
  have ending : after.readyQueueTail =
      if queues.readyQueueTail = some process then none else queues.readyQueueTail := by
    rw [same]
    rfl
  have unqueued : process ∉ rest := (List.nodup_cons.mp tailed.lists.chain.nodup).1
  rw [ending, tailed.tail]
  cases shape : rest.getLast? with
  | none => simp [List.getLast?_eq_none_iff.mp shape]
  | some last =>
      have different : last ≠ process := fun same => unqueued (same ▸ List.mem_of_getLast? shape)
      simp [List.getLast?_cons, shape, different]

/-- The queue once `prev` is linked past `process`. -/
def linkPast (queues : Queues ι) (prev process : ι) : Queues ι :=
  { queues.setNext prev (queues.link process) with
    readyQueueTail :=
      if queues.readyQueueTail = some process then some prev else queues.readyQueueTail }

omit [Fintype ι] in
theorem Tailed.past {front back : List ι} {prev : ι}
    (tailed : Tailed queues (front ++ prev :: process :: back)) :
    Tailed (linkPast queues prev process) (front ++ prev :: back) := by
  have chain := tailed.lists.chain
  have distinct := chain.nodup
  have apart : ∀ item ∈ front, item ≠ prev := fun item member same =>
    (List.nodup_append.mp distinct).2.2 item member prev (by simp) same
  have distinctRest := (List.nodup_append.mp distinct).2.1
  have prevAbsent : prev ∉ back := fun member =>
    (List.nodup_cons.mp distinctRest).1 (by simp [member])
  have processAbsent : process ∉ back :=
    (List.nodup_cons.mp (List.nodup_cons.mp distinctRest).2).1
  have behind : Chain queues.link (queues.link process) back := chain.rest.2
  have shorter : Chain (queues.setNext prev (queues.link process)).link queues.readyQueue
      (front ++ prev :: back) := by
    refine chain.splice (fun item member => link_setNext_other (apart item member)) ?_
    rw [link_setNext_same]
    exact behind.congr fun item member =>
      link_setNext_other fun same => prevAbsent (same ▸ member)
  have ending : (linkPast queues prev process).readyQueueTail =
      (front ++ prev :: back).getLast? := by
    rw [linkPast, tailed.tail]
    cases shape : back.getLast? with
    | none => simp [List.getLast?_eq_none_iff.mp shape]
    | some last =>
        have different : last ≠ process := fun same =>
          processAbsent (same ▸ List.mem_of_getLast? shape)
        simp [List.getLast?_cons, shape, different]
  exact ⟨⟨shorter, fun _ found => ending.trans found, tailed.lists.waiting, by simp⟩, ending⟩

theorem Tailed.remove_behind {front back : List ι} {prev : ι}
    (tailed : Tailed queues (front ++ prev :: process :: back)) :
    ∃ after, removeFromReadyQueue queues process = some after ∧
      Tailed after (front ++ prev :: back) := by
  have chain := tailed.lists.chain
  have distinct := chain.nodup
  have linked : queues.link prev = some process := chain.rest.1
  have outside : process ∉ front ++ prev :: back := by
    have regrouped : (front ++ [prev] ++ process :: back).Nodup := by simpa using distinct
    simpa using (List.nodup_cons.mp (List.nodup_middle.mp regrouped)).1
  obtain ⟨head, start, different⟩ :
      ∃ head, queues.readyQueue = some head ∧ head ≠ process := by
    rw [chain.head_eq]
    cases front with
    | nil => exact ⟨prev, rfl, fun same => outside (by simp [same])⟩
    | cons first others => exact ⟨first, rfl, fun same => outside (by simp [same])⟩
  rw [start] at chain
  have enough : front.length < Fintype.card ι := by
    have bound := distinct.length_le_card
    simp only [List.length_append, List.length_cons] at bound
    omega
  refine ⟨(linkPast queues prev process).setNext process none, ?_,
    tailed.past.setNext outside none⟩
  simp only [removeFromReadyQueue, start, different, if_false, findPrev_before chain enough,
    Option.map_some, linked, if_true]
  rfl

theorem Tailed.remove_absent (tailed : Tailed queues ready) (absent : process ∉ ready) :
    ∃ after, removeFromReadyQueue queues process = some after ∧ Tailed after ready := by
  have chain := tailed.lists.chain
  cases start : queues.readyQueue with
  | none => exact ⟨queues, by simp only [removeFromReadyQueue, start], tailed⟩
  | some head =>
      rw [start] at chain
      have member : head ∈ ready := chain.mem_iff.mp (.first rfl)
      have different : head ≠ process := fun same => absent (same ▸ member)
      obtain ⟨last, ending⟩ : ∃ last, ready.getLast? = some last :=
        ⟨_, List.getLast?_eq_some_getLast (List.ne_nil_of_mem member)⟩
      have enough := chain.nodup.length_le_card
      have unlinked : queues.link last ≠ some process := by
        rw [chain.last_link ending]
        simp
      refine ⟨queues.setNext process none, ?_, tailed.setNext absent none⟩
      simp only [removeFromReadyQueue, start, different, if_false,
        findPrev_absent chain absent enough, ending, Option.map_some, unlinked]

/-- Removing a process erases it from the queue, wherever it is. -/
theorem Tailed.erase (tailed : Tailed queues ready) (process : ι) :
    ∃ after, removeFromReadyQueue queues process = some after ∧
      Tailed after (ready.erase process) := by
  by_cases queued : process ∈ ready
  · have distinct := tailed.lists.chain.nodup
    obtain ⟨front, back, shape⟩ := List.append_of_mem queued
    subst shape
    have absent : process ∉ front := fun member =>
      (List.nodup_append.mp distinct).2.2 process member process (by simp) rfl
    rw [List.erase_append_right _ absent, List.erase_cons_head]
    rcases front.eq_nil_or_concat with rfl | ⟨others, prev, rfl⟩
    · exact tailed.remove_head
    · have regrouped : Tailed queues (others ++ prev :: process :: back) := by simpa using tailed
      simpa using regrouped.remove_behind
  · rw [List.erase_of_not_mem queued]
    exact tailed.remove_absent queued

/-- The calls of the two functions; the argument may be `NULL`. -/
inductive Call (ι : Type) where
  | add (process : Option ι)
  | remove (process : Option ι)
deriving Repr, DecidableEq

/-- A call, with the `NULL` checks both functions start with. -/
def perform (queues : Queues ι) : Call ι → Option (Queues ι)
  | .add (some process) => addToReadyQueue queues process
  | .remove (some process) => removeFromReadyQueue queues process
  | .add none | .remove none => some queues

/-- What a call means for the sequence of queued processes. -/
def queued (ready : List ι) : Call ι → List ι
  | .add (some process) => ready ++ [process]
  | .remove (some process) => ready.erase process
  | .add none | .remove none => ready

/-- No process is added while the walk from `ready_queue` meets it. -/
def Admitted : Queues ι → List (Call ι) → Prop
  | _, [] => True
  | queues, call :: calls =>
      (∀ process, call = .add (some process) → ¬ OnChain queues.link queues.readyQueue process) ∧
      ∀ after, perform queues call = some after → Admitted after calls

theorem Tailed.step (tailed : Tailed queues ready) (call : Call ι)
    (unqueued : ∀ process, call = .add (some process) →
      ¬ OnChain queues.link queues.readyQueue process) :
    ∃ after, perform queues call = some after ∧ Tailed after (queued ready call) := by
  cases call with
  | add process =>
      cases process with
      | none => exact ⟨queues, rfl, tailed⟩
      | some process =>
          exact tailed.append (mt tailed.lists.chain.mem_iff.mpr (unqueued process rfl))
  | remove process =>
      cases process with
      | none => exact ⟨queues, rfl, tailed⟩
      | some process => exact tailed.erase process

theorem Tailed.run (tailed : Tailed queues ready) {calls : List (Call ι)}
    (admitted : Admitted queues calls) :
    ∃ after, calls.foldlM perform queues = some after ∧
      Tailed after (calls.foldl queued ready) := by
  induction calls generalizing queues ready with
  | nil => exact ⟨queues, rfl, tailed⟩
  | cons call calls ih =>
      obtain ⟨middle, result, next⟩ := tailed.step call admitted.1
      obtain ⟨after, later, final⟩ := ih next (admitted.2 middle result)
      refine ⟨after, ?_, final⟩
      rw [List.foldlM_cons, result]
      exact later

/-- Whatever the calls, `ready_queue` leads through the queued processes, each
met once, to the one `ready_queue_tail` points to. -/
theorem ready_queue_represents (queues : Queues ι) (calls : List (Call ι))
    (admitted : Admitted (initScheduler queues) calls) :
    ∃ after, calls.foldlM perform (initScheduler queues) = some after ∧
      Chain after.link after.readyQueue (calls.foldl queued []) ∧
      (calls.foldl queued []).Nodup ∧
      (after.readyQueue = none ↔ after.readyQueueTail = none) ∧
      after.readyQueueTail = (calls.foldl queued []).getLast? := by
  obtain ⟨after, result, tailed⟩ := (initScheduler_tailed queues).run admitted
  exact ⟨after, result, tailed.lists.chain, tailed.lists.chain.nodup, tailed.head_none_iff,
    tailed.tail⟩

/-- Two control blocks whose links are whatever was in memory. -/
def uninitialised : Queues (Fin 2) where
  task _ := { state := .ready, timeSlice := 100, wakeupTime := 0, next := some 1 }
  readyQueue := some 0
  readyQueueTail := none
  blockedQueue := none
  tickCount := 0
  current := none

theorem ready_queue_represents_pair :
    ∃ after, [Call.add (some 0), .add (some 1), .remove (some 1)].foldlM perform
        (initScheduler uninitialised) = some after ∧
      after.readyQueue = some 0 ∧ after.readyQueueTail = some 0 := by
  have empty := initScheduler_tailed uninitialised
  have fresh : ∀ process, Call.add (some 0) = .add (some process) →
      ¬ OnChain (initScheduler uninitialised).link (initScheduler uninitialised).readyQueue
        process := fun _ _ => mt empty.lists.chain.mem_iff.mp (by simp)
  have admitted : Admitted (initScheduler uninitialised)
      [.add (some 0), .add (some 1), .remove (some 1)] := by
    refine ⟨fresh, fun after result => ⟨fun process same => ?_, fun _ _ => ⟨by simp, by simp [Admitted]⟩⟩⟩
    obtain ⟨middle, added, tailed⟩ := empty.step (.add (some 0)) fresh
    cases Option.some.inj (result.symm.trans added)
    cases same
    exact mt tailed.lists.chain.mem_iff.mp (by simp [queued])
  obtain ⟨after, result, chain, _, _, tail⟩ := ready_queue_represents uninitialised _ admitted
  exact ⟨after, result, chain.head_eq, tail⟩

end

end Helios.Scheduler
