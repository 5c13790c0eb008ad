import Helios.Interrupt.Refinement

namespace Helios.Interrupt

open Helios.Data

/-! No interrupt is lost and none is handled twice. -/

/-- The interrupts of a line that were handled or are still to be handled. -/
def Lines.account (lines : Lines) (line : Nat) : Nat :=
  lines.handled.count (32 + line) + (if lines.busy = some line then 1 else 0) +
    (if lines.waiting line then 1 else 0)

/-- The lines whose interrupts are still to be taken, in the order of priority. -/
def Lines.pending (lines : Lines) : List Nat :=
  priority.filter fun line => lines.waiting line && lines.enabled line

/-- How many interrupts of a line an event asks for. -/
def Event.asks (line : Nat) : Event → Nat
  | .request other => if other = line then 1 else 0
  | .software vector _ => if vector = 32 + line then 1 else 0
  | _ => 0

/-- The events that send an end of interrupt to the second controller. -/
def Event.endsSecond : Event → Bool
  | .handle seen => 40 ≤ seen
  | .software _ seen => 40 ≤ seen
  | .endOfInterrupt irq => 8 ≤ irq
  | _ => false

section

variable {lines after : Lines} {line : Nat} {event : Event} {events : List Event}
variable {unended : Nat → Bool} {seen : Nat → Nat}

/-- A request for a line that waits already asks for nothing new; apart from
that each interrupt asked for is accounted for. -/
theorem account_step (taken : lines.step event = some after) :
    after.account line ≤ lines.account line + event.asks line ∧
      ((event = .request line → lines.waiting line = false) →
        after.account line = lines.account line + event.asks line) := by
  cases event with
  | request other =>
      obtain ⟨_, rfl⟩ := Option.ite_some_none_eq_some.mp taken
      simp only [Lines.account, Event.asks, Function.update_apply]
      by_cases same : other = line
      · subst same
        constructor
        · split <;> simp
        · intro fresh
          simp [fresh rfl]
      · simp [same, Ne.symm same]
  | acknowledge =>
      obtain ⟨free, found⟩ := Option.ite_none_right_eq_some.mp taken
      obtain ⟨first, next, rfl⟩ := Option.map_eq_some_iff.mp found
      have waits : lines.waiting first = true := by
        have both := List.find?_some next
        exact (Bool.and_eq_true _ _ ▸ both).1
      have kept : (Lines.account
          { lines with waiting := Function.update lines.waiting first false, busy := some first } line) =
            lines.account line := by
        simp only [Lines.account, free, Function.update_apply]
        by_cases same : line = first
        · simp [same, waits]
        · simp [same, Ne.symm same]
      exact ⟨kept.le, fun _ => kept⟩
  | handle seen =>
      obtain ⟨_, ended⟩ := Option.ite_none_right_eq_some.mp taken
      obtain ⟨served, active, rfl⟩ := Option.map_eq_some_iff.mp ended
      have kept : (lines.handled ++ [32 + served]).count (32 + line) + 0 +
          (if lines.waiting line then 1 else 0) = lines.account line := by
        simp only [Lines.account, active, List.count_append, List.count_singleton]
        by_cases same : served = line <;> simp [same]
      exact ⟨kept.le, fun _ => kept⟩
  | software vector seen =>
      obtain ⟨_, rfl⟩ := Option.ite_some_none_eq_some.mp taken
      have more : (lines.handled ++ [vector]).count (32 + line) +
          (if lines.busy = some line then 1 else 0) + (if lines.waiting line then 1 else 0) =
          lines.account line + if vector = 32 + line then 1 else 0 := by
        simp only [Lines.account, List.count_append, List.count_singleton, beq_iff_eq]
        omega
      exact ⟨more.le, fun _ => more⟩
  | enable irq =>
      obtain ⟨_, rfl⟩ := Option.ite_some_none_eq_some.mp taken
      exact ⟨le_rfl, fun _ => rfl⟩
  | disable irq =>
      obtain ⟨_, rfl⟩ := Option.ite_some_none_eq_some.mp taken
      exact ⟨le_rfl, fun _ => rfl⟩
  | endOfInterrupt irq =>
      obtain ⟨_, rfl⟩ := Option.ite_some_none_eq_some.mp taken
      exact ⟨le_rfl, fun _ => rfl⟩

theorem account_run (taken : run Lines.step lines events = some after) :
    after.account line ≤ lines.account line + (events.map (Event.asks line)).sum ∧
      (Along Lines.step (fun lines event => event = .request line → lines.waiting line = false)
          lines events →
        after.account line = lines.account line + (events.map (Event.asks line)).sum) := by
  induction events generalizing lines with
  | nil =>
      obtain rfl : lines = after := Option.some.inj taken
      exact ⟨le_rfl, fun _ => rfl⟩
  | cons event events ih =>
      obtain ⟨middle, early, late⟩ := run_cons_eq_some.mp taken
      obtain ⟨most, all⟩ := @account_step _ _ line _ early
      obtain ⟨mostLater, allLater⟩ := ih late
      rw [List.map_cons, List.sum_cons]
      refine ⟨by omega, fun ⟨fresh, along⟩ => ?_⟩
      have first := all fresh
      have rest := allLater (along middle early)
      omega

theorem priority_nodup : priority.Nodup := by decide

theorem next_eq_head : lines.next = lines.pending.head? := List.head?_filter.symm

/-- The most urgent line is taken from the front. -/
theorem pending_taken {rest : List Nat} (pending : lines.pending = line :: rest) :
    Lines.pending { lines with waiting := Function.update lines.waiting line false } = rest := by
  have others : Lines.pending { lines with waiting := Function.update lines.waiting line false } =
      lines.pending.filter (· ≠ line) := by
    rw [Lines.pending, Lines.pending, List.filter_filter]
    refine List.filter_congr fun other _ => ?_
    show (Function.update lines.waiting line false other && lines.enabled other) = _
    rw [Function.update_apply]
    by_cases same : other = line <;> simp [same]
  have distinct : (line :: rest).Nodup := pending ▸ priority_nodup.filter _
  have absent := (List.nodup_cons.mp distinct).1
  rw [others, pending, List.filter_cons_of_neg (by simp), List.filter_eq_self]
  intro other member
  simpa using fun same : other = line => absent (same ▸ member)

/-- The end of interrupt ends the line that was served, since no line before it
is without an end. -/
theorem endSecond_update (behind : 8 ≤ line) (few : line < 16)
    (clear : ∀ other ≤ line, 8 ≤ other → unended other = false) :
    Lines.endSecond (Function.update unended line true) = unended := by
  have found : ((List.range 8).find? fun other => Function.update unended line true (8 + other)) =
      some (line - 8) := by
    rw [List.find?_range_eq_some]
    refine ⟨?_, List.mem_range.mpr (by omega), fun other before => ?_⟩
    · rw [show 8 + (line - 8) = line by omega, Function.update_self]
    · rw [Function.update_of_ne (by omega), clear (8 + other) (by omega) (by omega)]
      rfl
  rw [Lines.endSecond, found]
  show Function.update (Function.update unended line true) (8 + (line - 8)) false = unended
  rw [show 8 + (line - 8) = line by omega, Function.update_idem,
    ← clear line le_rfl behind, Function.update_eq_self]

theorem enabled_clear (enabled : lines.enabled line) :
    ∀ other ≤ line, 8 ≤ other → lines.unended other = false := by
  intro other least behind
  have clear := List.all_eq_true.mp (Bool.and_eq_true _ _ ▸ enabled).2 (other - 8)
    (List.mem_range.mpr (by omega))
  rw [show 8 + (other - 8) = other by omega] at clear
  simpa using clear

/-- A handler that reads a number on the side of its own line ends it. -/
theorem endedBy_line (few : line < 16) (enabled : lines.enabled line)
    (side : 40 ≤ seen line ↔ 8 ≤ line) :
    Lines.endedBy (seen line)
      (if line < 8 then lines.unended else Function.update lines.unended line true) =
        lines.unended := by
  unfold Lines.endedBy
  by_cases front : line < 8
  · rw [if_pos front, if_neg (by omega)]
  · rw [if_neg front, if_pos (by omega)]
    exact endSecond_update (by omega) few (enabled_clear enabled)

/-- The processor takes the most urgent line and its handler returns. -/
theorem serve_next {read : Nat} (free : lines.busy = none) (next : lines.next = some line)
    (inside : read < 256) : run Lines.step lines [.acknowledge, .handle read] = some
      { lines with
        waiting := Function.update lines.waiting line false
        unended := Lines.endedBy read
          (if line < 8 then lines.unended else Function.update lines.unended line true)
        busy := none
        handled := lines.handled ++ [32 + line]
        called := lines.called ++ [read] } := by
  simp only [run, Lines.step, if_pos free, next, Option.map_some, Option.bind_some, if_pos inside]

/-- The processor takes what is pending, and then nothing is. -/
theorem drain_run (free : lines.busy = none)
    (side : ∀ line ∈ lines.pending, seen line < 256 ∧ (40 ≤ seen line ↔ 8 ≤ line)) :
    ∃ after, run Lines.step lines
        (lines.pending.flatMap fun line => [.acknowledge, .handle (seen line)]) = some after ∧
      after.called = lines.called ++ lines.pending.map seen ∧
      after.handled = lines.handled ++ lines.pending.map (32 + ·) ∧
      after.busy = none ∧ after.next = none := by
  generalize same : lines.pending = pending
  induction pending generalizing lines with
  | nil => exact ⟨lines, rfl, by simp, by simp, free, by rw [next_eq_head, same]; rfl⟩
  | cons line rest ih =>
      have next : lines.next = some line := by rw [next_eq_head, same]; rfl
      have member : line ∈ lines.pending := same ▸ List.mem_cons_self
      obtain ⟨listed, waits⟩ := List.mem_filter.mp member
      have ended := endedBy_line (priority_iff.mp listed).1 (Bool.and_eq_true _ _ ▸ waits).2
        (side line member).2
      obtain ⟨after, taken, called, handled, idle, last⟩ := @ih
        { lines with
          waiting := Function.update lines.waiting line false
          busy := none
          handled := lines.handled ++ [32 + line]
          called := lines.called ++ [seen line] } rfl
        (fun other found => side other (same ▸ List.mem_cons_of_mem _ (pending_taken same ▸ found)))
        (pending_taken same)
      refine ⟨after, ?_, ?_, ?_, idle, last⟩
      · rw [List.flatMap_cons, run_append, serve_next free next (side line member).1, ended]
        exact taken
      · rw [called, List.map_cons, List.append_assoc]
        rfl
      · rw [handled, List.map_cons, List.append_assoc]
        rfl

/-- Without an end of interrupt at the second controller its lines keep waiting
for one. -/
theorem unended_step (taken : lines.step event = some after) (none : event.endsSecond = false)
    (held : lines.unended line = true) : after.unended line = true := by
  have kept : ∀ {seen : Nat} {unended : Nat → Bool}, decide (40 ≤ seen) = false →
      unended line = true → Lines.endedBy seen unended line = true := by
    intro seen unended low held
    rwa [Lines.endedBy, if_neg (of_decide_eq_false low)]
  cases event with
  | request other =>
      obtain ⟨_, rfl⟩ := Option.ite_some_none_eq_some.mp taken
      exact held
  | acknowledge =>
      obtain ⟨_, found⟩ := Option.ite_none_right_eq_some.mp taken
      obtain ⟨_, _, rfl⟩ := Option.map_eq_some_iff.mp found
      exact held
  | handle seen =>
      obtain ⟨_, ended⟩ := Option.ite_none_right_eq_some.mp taken
      obtain ⟨_, _, rfl⟩ := Option.map_eq_some_iff.mp ended
      refine kept none ?_
      split
      · exact held
      · rw [Function.update_apply, held, ite_self]
  | software vector seen =>
      obtain ⟨_, rfl⟩ := Option.ite_some_none_eq_some.mp taken
      exact kept none held
  | enable irq =>
      obtain ⟨_, rfl⟩ := Option.ite_some_none_eq_some.mp taken
      exact held
  | disable irq =>
      obtain ⟨_, rfl⟩ := Option.ite_some_none_eq_some.mp taken
      exact held
  | endOfInterrupt irq =>
      obtain ⟨_, rfl⟩ := Option.ite_some_none_eq_some.mp taken
      show (if 8 ≤ irq then Lines.endSecond lines.unended else lines.unended) line = true
      rwa [if_neg (of_decide_eq_false none)]

theorem unended_run (taken : run Lines.step lines events = some after)
    (none : ∀ event ∈ events, event.endsSecond = false) (held : lines.unended line = true) :
    after.unended line = true := by
  induction events generalizing lines with
  | nil => exact Option.some.inj taken ▸ held
  | cons event events ih =>
      obtain ⟨middle, early, late⟩ := run_cons_eq_some.mp taken
      exact ih late (fun other member => none other (List.mem_cons_of_mem _ member))
        (unended_step early (none event List.mem_cons_self) held)

end

section

variable {σ : Type} {handlers : Nat → Option (σ → σ)} {start : σ} {pair booted : Pair}
variable {system final : System σ} {events : List Event}

/-- After `init_pic`, whatever the controllers did before and whatever numbers
below 256 `irq_handler` reads, the kernel and the controllers go through the runs
of the lines, and through all of them. -/
theorem controllers_refine_lines
    (idle : ∀ line < 8, pair.first.service line = false ∧ pair.second.service line = false)
    (boots : Port.Served Pair.step pair initPic () booted) (events : List Event) :
    (∀ final, Steps handlers ⟨booted, none, start⟩ events final →
      ∃ lines, run Lines.step .initial events = some lines ∧
        Represents handlers start final lines) ∧
    ∀ lines, run Lines.step .initial events = some lines →
      ∃ final, Steps handlers ⟨booted, none, start⟩ events final ∧
        Represents handlers start final lines :=
  ⟨fun _ taken => (booted_represents idle boots).steps taken,
    fun _ taken => (booted_represents idle boots).run taken⟩

/-- The clock interrupts the service of the disk and has to wait for its end.
`irq_handler` reads 0, so that the disk stays in service. -/
theorem controllers_refine_lines_disk : ∃ booted, Port.Served Pair.step firmware initPic () booted ∧
    ∃ final lines, Represents (fun _ => none) 0 final lines ∧
      lines.handled = [46] ∧ lines.unended 14 = true ∧
      Steps (fun _ => none) ⟨booted, none, 0⟩ [.request 14, .acknowledge, .request 0, .handle 0]
        final := by
  refine ⟨_, served_initPic.mpr rfl, ?_⟩
  obtain ⟨final, taken, reached⟩ := (@controllers_refine_lines Nat (fun _ => none) 0 firmware _
    (by decide) (served_initPic.mpr rfl)
    [.request 14, .acknowledge, .request 0, .handle 0]).2 _ rfl
  exact ⟨final, _, reached, rfl, rfl, taken⟩

/-- In every run the interrupts of a line that were handled, are being handled
or wait are not more than were asked for, and as many unless the line was
raised again while it waited. -/
theorem every_interrupt_handled
    (idle : ∀ line < 8, pair.first.service line = false ∧ pair.second.service line = false)
    (boots : Port.Served Pair.step pair initPic () booted)
    (taken : Steps handlers ⟨booted, none, start⟩ events final) (line : Nat) :
    ∃ lines, run Lines.step .initial events = some lines ∧
      Represents handlers start final lines ∧
      lines.account line ≤ (events.map (Event.asks line)).sum ∧
      (Along Lines.step (fun lines event => event = .request line → lines.waiting line = false)
          .initial events →
        lines.account line = (events.map (Event.asks line)).sum) := by
  obtain ⟨lines, ran, reached⟩ := (booted_represents idle boots).steps taken
  have none : Lines.account .initial line = 0 := rfl
  obtain ⟨most, all⟩ := @account_run _ _ line _ ran
  rw [none, Nat.zero_add] at most all
  exact ⟨lines, ran, reached, most, all⟩

/-- An interrupt of the disk, and one that code asks for on its vector. -/
theorem every_interrupt_handled_disk : ∃ booted, Port.Served Pair.step firmware initPic () booted ∧
    ∃ final lines, Represents (fun _ => none) 0 final lines ∧ lines.account 14 = 2 ∧
      Steps (fun _ => none) ⟨booted, none, 0⟩
        [.request 14, .acknowledge, .handle 0, .software 46 46] final := by
  refine ⟨_, served_initPic.mpr rfl, ?_⟩
  have represents := @booted_represents Nat (fun _ => none) 0 firmware _ (by decide)
    (served_initPic.mpr rfl)
  obtain ⟨final, taken, _⟩ := @Represents.run _ _ _ _ _ _
    [.request 14, .acknowledge, .handle 0, .software 46 46] represents rfl
  obtain ⟨lines, _, reached, _, all⟩ := every_interrupt_handled (by decide) (served_initPic.mpr rfl)
    taken 14
  refine ⟨final, lines, reached, all ⟨fun _ => rfl, fun _ _ => .of_forall fun input member _ same => ?_⟩,
    taken⟩
  subst same
  simp at member

/-- Left alone, with handlers that read numbers on the side of their own lines,
the processor takes every interrupt that waits on an enabled line, each once and
in the order of priority, and then there is none.  A line of the second
controller that did not end stays so until an end of interrupt reaches that
controller; no interrupt is taken there from it or from a line behind it. -/
theorem controllers_drain
    (idle : ∀ line < 8, pair.first.service line = false ∧ pair.second.service line = false)
    (boots : Port.Served Pair.step pair initPic () booted)
    (taken : Steps handlers ⟨booted, none, start⟩ events system) (free : system.busy = none) :
    ∃ lines, run Lines.step .initial events = some lines ∧
      Represents handlers start system lines ∧
      (∀ seen : Nat → Nat,
        (∀ line ∈ lines.pending, seen line < 256 ∧ (40 ≤ seen line ↔ 8 ≤ line)) →
        ∃ final, Steps handlers system
            (lines.pending.flatMap fun line => [.acknowledge, .handle (seen line)]) final ∧
          final.state = (lines.pending.map seen).foldl (applyHandler handlers) system.state ∧
          final.pair.acknowledge = none) ∧
      ∀ line, 8 ≤ line → lines.unended line = true → ∀ later final,
        Steps handlers system later final → (∀ event ∈ later, event.endsSecond = false) →
        final.busy = none → ∀ vector after, final.pair.acknowledge = some (vector, after) →
        vector < 32 + line := by
  obtain ⟨lines, ran, reached⟩ := (booted_represents idle boots).steps taken
  have quiet : lines.busy = none := by
    rw [reached.busy] at free
    exact Option.map_eq_none_iff.mp free
  refine ⟨lines, ran, reached, fun seen side => ?_, ?_⟩
  · obtain ⟨after, drained, called, _, done, last⟩ := drain_run quiet side
    obtain ⟨final, steps, kept⟩ := reached.run drained
    refine ⟨final, steps, ?_, ?_⟩
    · rw [kept.state, called, List.foldl_append, ← reached.state]
    · rw [acknowledge_eq kept.configured (done ▸ kept.serves), last]
      rfl
  · intro line behind held later final steps none resting vector after asked
    obtain ⟨ended, went, kept⟩ := reached.steps steps
    have quiet : ended.busy = Option.none := by
      rw [kept.busy] at resting
      exact Option.map_eq_none_iff.mp resting
    rw [acknowledge_eq kept.configured (quiet ▸ kept.serves)] at asked
    obtain ⟨served, next, same⟩ := Option.map_eq_some_iff.mp asked
    obtain ⟨rfl, _⟩ := Prod.mk.injEq .. ▸ same
    have waits := List.find?_some next
    have clear := enabled_clear (Bool.and_eq_true _ _ ▸ waits).2 line
    have still := unended_run went none held
    by_contra reaches
    rw [clear (by omega) behind] at still
    exact Bool.noConfusion still

/-- The disk is not served again after `irq_handler` read 0 for it; a serial line
is. -/
theorem controllers_drain_serial : ∃ booted, Port.Served Pair.step firmware initPic () booted ∧
    ∃ system, Steps (fun vector => some fun order => order ++ [vector]) ⟨booted, none, []⟩
        [.request 14, .acknowledge, .handle 0, .request 14, .request 4] system ∧
      ∃ lines, Represents (fun vector => some fun order => order ++ [vector]) [] system lines ∧
        (∃ final, Steps (fun vector => some fun order => order ++ [vector]) system
            (lines.pending.flatMap fun line => [.acknowledge, .handle (32 + line)]) final ∧
          final.state = (lines.pending.map (32 + ·)).foldl
            (applyHandler fun vector => some fun order => order ++ [vector]) system.state ∧
          final.pair.acknowledge = none) ∧
        ∀ vector after, system.pair.acknowledge = some (vector, after) → vector < 46 := by
  refine ⟨_, served_initPic.mpr rfl, ?_⟩
  have represents := @booted_represents (List Nat) (fun vector => some fun order => order ++ [vector])
    [] firmware _ (by decide) (served_initPic.mpr rfl)
  obtain ⟨system, taken, reached⟩ := @Represents.run _ _ _ _ _ _
    [.request 14, .acknowledge, .handle 0, .request 14, .request 4] represents rfl
  have resting : system.busy = none := reached.busy
  obtain ⟨lines, _, kept, drains, stuck⟩ :=
    controllers_drain (by decide) (served_initPic.mpr rfl) taken resting
  have quiet : lines.busy = none := Option.map_eq_none_iff.mp (kept.busy ▸ resting)
  have held : lines.unended 14 = true := by
    have service := kept.serves.second 6 (by decide)
    rw [reached.serves.second 6 (by decide), quiet] at service
    exact service.symm
  refine ⟨system, taken, lines, kept, drains _ fun line member => ?_,
    stuck 14 (by decide) held [] system .done (by simp) resting⟩
  have listed := (priority_iff.mp (List.mem_filter.mp member).1).1
  omega

end

end Helios.Interrupt
