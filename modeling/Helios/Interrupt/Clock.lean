import Helios.Interrupt.Delivery
import Helios.Timer.Delay

namespace Helios.Interrupt

open Helios.Data Helios.Timer

/-! The clock of the kernel: the interval timer, its interrupt and the tick
counter. -/

/-- Channel 0 of the 8254 interval timer in mode 3: its count and the low byte of
the next one. -/
structure Pit where
  reload : Nat
  low : Option Nat
deriving Repr, DecidableEq

namespace Pit

/-- The command selects mode 3 with the low byte before the high byte. -/
def step (pit : Pit) : Access × Option Nat → Option Pit
  | (.outb port value, none) =>
      if port = 0x43 ∧ value = 0x36 then some { pit with low := none }
      else if port = 0x40 then
        match pit.low with
        | none => some { pit with low := some value }
        | some low => some { reload := low + 256 * value, low := none }
      else none
  | _ => none

/-- The cycles of the timer from one interrupt to the next; the count 0 stands
for `2 ^ 16`. -/
def period (pit : Pit) : Nat := if pit.reload = 0 then 65536 else pit.reload

end Pit

/-- The rate that `init_timer` sets for an argument. -/
def rate (freq : Nat) : Nat := if freq = 0 then 100 else freq

section

variable {pit set : Pit} {timer started : Counter} {freq ticks : Nat}

theorem served_initTimer : Port.Served Pit.step pit (initTimer timer freq) started set ↔
    started = { timer with frequency := rate freq, msPerTick := 1000 / rate freq } ∧
      set = { reload := pitBaseFrequency / rate freq % 65536, low := none } := by
  have bytes : ∀ divisor, divisor % 256 + 256 * (divisor / 256 % 256) = divisor % 65536 := by
    intro divisor
    omega
  simp [initTimer, Port.served_outb_bind, Port.served_pure, Pit.step, rate, bytes, eq_comm,
    and_comm]

/-- The divisor fits the two bytes written for it from 19 Hz on. -/
theorem divisor_iff (positive : 0 < freq) :
    (if pitBaseFrequency / freq % 65536 = 0 then 65536 else pitBaseFrequency / freq % 65536) =
      pitBaseFrequency / freq ↔ 19 ≤ freq ∧ freq ≤ 1193180 := by
  have zero : pitBaseFrequency / freq = 0 ↔ 1193180 < freq := Nat.div_eq_zero_iff_lt positive
  have large : pitBaseFrequency / freq < 65536 ↔ 19 ≤ freq := by
    rw [Nat.div_lt_iff_lt_mul positive, pitBaseFrequency]
    omega
  have notFull : pitBaseFrequency / freq ≠ 65536 := by
    intro same
    obtain ⟨low, high⟩ := (Nat.div_eq_iff positive).mp same
    rw [pitBaseFrequency] at low high
    omega
  generalize pitBaseFrequency / freq = divisor at zero large notFull
  split <;> omega

theorem rate_pos : 0 < rate freq := by
  unfold rate
  split <;> omega

/-- The timer gets the divisor that `init_timer` computes if and only if the
rate is between 19 Hz and the frequency of the timer.  Then, at a rate that
divides 1000, the time that `get_time_ms` gains in any number of ticks is never
behind the time that the timer took for them, and ahead by less than one of its
cycles for each tick, until it wraps. -/
theorem initTimer_period (pit : Pit) (timer : Counter) (freq : Nat) :
    ∃ started set, Port.Served Pit.step pit (initTimer timer freq) started set ∧
      (set.period = pitBaseFrequency / rate freq ↔ 19 ≤ rate freq ∧ rate freq ≤ 1193180) ∧
      (19 ≤ rate freq → rate freq ∣ 1000 → ∀ ticks > 0, ticks * started.msPerTick < 4294967296 →
        let gained := sub32 (getTimeMs (timerCallback^[ticks] started)) (getTimeMs started)
        1000 * (ticks * set.period) ≤ pitBaseFrequency * gained ∧
        pitBaseFrequency * gained < 1000 * (ticks * (set.period + 1))) := by
  have period := divisor_iff (@rate_pos freq)
  refine ⟨_, _, served_initTimer.mpr ⟨rfl, rfl⟩, period, fun low divides ticks some fits => ?_⟩
  have high : rate freq ≤ 1000 := Nat.le_of_dvd (by omega) divides
  have exact : Pit.period { reload := pitBaseFrequency / rate freq % 65536, low := none } =
      pitBaseFrequency / rate freq := period.mpr ⟨low, by omega⟩
  obtain ⟨ms, thousand⟩ := divides
  have quotient : 1000 / rate freq = ms := by
    rw [thousand, Nat.mul_div_cancel_left _ rate_pos]
  have most : rate freq * (pitBaseFrequency / rate freq) ≤ pitBaseFrequency := Nat.mul_div_le _ _
  have least : pitBaseFrequency < rate freq * (pitBaseFrequency / rate freq + 1) :=
    Nat.lt_mul_div_succ _ rate_pos
  intro gained
  have measured : gained = ticks * ms :=
    ((measured_eq _ ticks).trans (Nat.mod_eq_of_lt fits)).trans (congrArg (ticks * ·) quotient)
  rw [exact, measured, thousand]
  have positive : 0 < ms * ticks := by
    refine Nat.mul_pos (Nat.pos_of_ne_zero fun zero => ?_) some
    rw [zero] at thousand
    omega
  constructor
  · calc rate freq * ms * (ticks * (pitBaseFrequency / rate freq))
        = rate freq * (pitBaseFrequency / rate freq) * (ms * ticks) := by ring
      _ ≤ pitBaseFrequency * (ms * ticks) := Nat.mul_le_mul_right _ most
      _ = pitBaseFrequency * (ticks * ms) := by ring
  · calc pitBaseFrequency * (ticks * ms)
        = pitBaseFrequency * (ms * ticks) := by ring
      _ < rate freq * (pitBaseFrequency / rate freq + 1) * (ms * ticks) :=
          Nat.mul_lt_mul_of_pos_right least positive
      _ = rate freq * ms * (ticks * (pitBaseFrequency / rate freq + 1)) := by ring

/-- The table of `init_idt`, with the handler that `init_timer` registers. -/
def timerHandlers : Nat → Option (Counter → Counter) :=
  registerInterruptHandler (fun _ => none) 32 timerCallback

/-- The same table after `init_syscalls`. -/
def clockHandlers (syscallHandler : Counter → Counter) : Nat → Option (Counter → Counter) :=
  registerInterruptHandler timerHandlers 0x80 syscallHandler

variable {syscallHandler : Counter → Counter} {vector : Nat}

theorem applyHandler_timer : applyHandler timerHandlers timer vector =
    timerCallback^[if vector = 32 then 1 else 0] timer := by
  rw [applyHandler, timerHandlers, registerInterruptHandler, Function.update_apply]
  split <;> rfl

/-- Apart from `syscall_handler` only `timer_callback` changes the clock. -/
theorem applyHandler_clock (other : vector ≠ 0x80) :
    applyHandler (clockHandlers syscallHandler) timer vector =
      timerCallback^[if vector = 32 then 1 else 0] timer := by
  rw [← applyHandler_timer, applyHandler, applyHandler, clockHandlers, registerInterruptHandler,
    Function.update_of_ne other]

theorem clock_called {called : List Nat} (others : 0x80 ∉ called) :
    called.foldl (applyHandler (clockHandlers syscallHandler)) timer =
      timerCallback^[called.count 32] timer := by
  induction called generalizing timer with
  | nil => rfl
  | cons vector called ih =>
      rw [List.mem_cons, not_or] at others
      rw [List.foldl_cons, ih others.2, applyHandler_clock (Ne.symm others.1),
        ← Function.iterate_add_apply, List.count_cons]
      simp

/-- The numbers that `irq_handler` reads. -/
def Event.reads : Event → Option Nat
  | .handle seen => some seen
  | .software _ seen => some seen
  | _ => none

/-- `irq_handler` reads the vector of its interrupt. -/
def Event.truthful (lines : Lines) : Event → Prop
  | .handle seen => lines.busy = some (seen - 32) ∧ 32 ≤ seen
  | .software vector seen => seen = vector
  | _ => True

def Event.isYield : Event → Bool
  | .software vector _ => vector == 32
  | _ => false

theorem called_step {lines after : Lines} {event : Event} (taken : lines.step event = some after) :
    after.called = lines.called ++ event.reads.toList ∧
      (event.truthful lines → after.handled = lines.handled ++ event.reads.toList) := by
  cases event with
  | request other =>
      obtain ⟨_, rfl⟩ := Option.ite_some_none_eq_some.mp taken
      simp [Event.reads]
  | acknowledge =>
      obtain ⟨_, found⟩ := Option.ite_none_right_eq_some.mp taken
      obtain ⟨_, _, rfl⟩ := Option.map_eq_some_iff.mp found
      simp [Event.reads]
  | handle seen =>
      obtain ⟨_, ended⟩ := Option.ite_none_right_eq_some.mp taken
      obtain ⟨served, active, rfl⟩ := Option.map_eq_some_iff.mp ended
      refine ⟨rfl, fun ⟨same, vectored⟩ => ?_⟩
      obtain rfl : served = seen - 32 := Option.some.inj (active.symm.trans same)
      show lines.handled ++ [32 + (seen - 32)] = lines.handled ++ [seen]
      rw [Nat.add_sub_cancel' vectored]
  | software vector seen =>
      obtain ⟨_, rfl⟩ := Option.ite_some_none_eq_some.mp taken
      exact ⟨rfl, fun same => congrArg (lines.handled ++ [·]) same.symm⟩
  | enable irq =>
      obtain ⟨_, rfl⟩ := Option.ite_some_none_eq_some.mp taken
      simp [Event.reads, Lines.setDisabled]
  | disable irq =>
      obtain ⟨_, rfl⟩ := Option.ite_some_none_eq_some.mp taken
      simp [Event.reads, Lines.setDisabled]
  | endOfInterrupt irq =>
      obtain ⟨_, rfl⟩ := Option.ite_some_none_eq_some.mp taken
      simp [Event.reads]

theorem called_run {lines after : Lines} {events : List Event}
    (taken : run Lines.step lines events = some after) :
    after.called = lines.called ++ events.filterMap Event.reads ∧
      (Along Lines.step (fun lines event => event.truthful lines) lines events →
        after.handled = lines.handled ++ events.filterMap Event.reads) := by
  induction events generalizing lines with
  | nil =>
      obtain rfl : lines = after := Option.some.inj taken
      simp
  | cons event events ih =>
      obtain ⟨middle, early, late⟩ := run_cons_eq_some.mp taken
      obtain ⟨called, handled⟩ := called_step early
      obtain ⟨calledLater, handledLater⟩ := ih late
      have reads : (event :: events).filterMap Event.reads =
          event.reads.toList ++ events.filterMap Event.reads := by
        cases read : event.reads <;> simp [read]
      rw [reads, ← List.append_assoc, ← called, ← List.append_assoc]
      refine ⟨calledLater, fun ⟨truthful, along⟩ => ?_⟩
      rw [← handled truthful]
      exact handledLater (along middle early)

theorem asks_clock {events : List Event} : (events.map (Event.asks 0)).sum =
    events.count (.request 0) + events.countP Event.isYield := by
  induction events with
  | nil => rfl
  | cons event events ih =>
      rw [List.map_cons, List.sum_cons, ih, List.count_cons, List.countP_cons]
      cases event <;> simp [Event.asks, Event.isYield] <;> omega

/-- In every run of the kernel after `init_pic` in which `irq_handler` never gets
at `syscall_handler`, the clock stands at the ticks of its calls that read 32.  Where every call reads the vector of
its interrupt these are the interrupts handled on vector 32: one for each
interrupt of the timer, unless two of them came at once, and one for each
`int 0x20`. -/
theorem kernel_clock {pair booted : Pair} {events : List Event} {final : System Counter}
    (idle : ∀ line < 8, pair.first.service line = false ∧ pair.second.service line = false)
    (boots : Port.Served Pair.step pair initPic () booted)
    (taken : Steps (clockHandlers syscallHandler) ⟨booted, none, timer⟩ events final)
    (others : 0x80 ∉ events.filterMap Event.reads) :
    ∃ lines, run Lines.step .initial events = some lines ∧
      Represents (clockHandlers syscallHandler) timer final lines ∧
      getTimeMs final.state = u32
        ((timer.tickCount + (events.filterMap Event.reads).count 32) * timer.msPerTick) ∧
      (Along Lines.step (fun lines event => event.truthful lines) .initial events →
        lines.handled = events.filterMap Event.reads) ∧
      lines.account 0 ≤ events.count (.request 0) + events.countP Event.isYield ∧
      (Along Lines.step (fun lines event => event = .request 0 → lines.waiting 0 = false)
          .initial events →
        lines.account 0 = events.count (.request 0) + events.countP Event.isYield) := by
  obtain ⟨lines, ran, reached⟩ := (booted_represents idle boots).steps taken
  have none : Lines.account .initial 0 = 0 := rfl
  obtain ⟨most, all⟩ := @account_run _ _ 0 _ ran
  rw [none, Nat.zero_add, asks_clock] at most all
  obtain ⟨called, handled⟩ := called_run ran
  refine ⟨lines, ran, reached, ?_, handled, most, all⟩
  have ticked : (timerCallback^[lines.called.count 32] timer).tickCount ≡
      timer.tickCount + lines.called.count 32 [MOD 4294967296] :=
    tickCount_iterate timer _
  have reads : events.filterMap Event.reads = lines.called := called.symm
  rw [reads] at others ⊢
  rw [reached.state, clock_called others, getTimeMs, msPerTick_iterate]
  exact ticked.mul_right _

/-- A tick of the timer for which `irq_handler` reads its vector, and one of
`yield` for which it reads 0. -/
theorem kernel_clock_yield :
    let timer : Counter := { tickCount := 0, frequency := 100, msPerTick := 10 }
    ∃ booted, Port.Served Pair.step firmware initPic () booted ∧
      ∃ final, Steps (clockHandlers id) ⟨booted, none, timer⟩
          [.request 0, .acknowledge, .handle 32, .software 32 0] final ∧
        ∃ lines, Represents (clockHandlers id) timer final lines ∧ lines.account 0 = 2 ∧
          getTimeMs final.state = 10 := by
  intro timer
  refine ⟨_, served_initPic.mpr rfl, ?_⟩
  have represents := @booted_represents Counter (clockHandlers id) timer firmware _ (by decide)
    (served_initPic.mpr rfl)
  obtain ⟨final, taken, _⟩ := @Represents.run _ _ _ _ _ _
    [.request 0, .acknowledge, .handle 32, .software 32 0] represents rfl
  obtain ⟨lines, _, reached, time, _, _, all⟩ :=
    kernel_clock (by decide) (served_initPic.mpr rfl) taken (by decide)
  refine ⟨final, taken, lines, reached, ?_, time⟩
  refine all ⟨fun _ => rfl, fun _ _ => .of_forall fun input member _ same => ?_⟩
  subst same
  simp at member

end

end Helios.Interrupt
