import Helios.Data.Memory
import Helios.Data.Port
import Mathlib.Algebra.Order.Floor.Div

namespace Helios.Timer

open Helios.Data

/-! The tick counter of `timer.c` and the waits that count on it.

The lines `init_timer` prints are left out. -/

/-- The static variables of `timer.c`. -/
structure Counter where
  tickCount : Nat
  frequency : Nat
  msPerTick : Nat
deriving Repr, DecidableEq

def pitBaseFrequency : Nat := 1193180

def timerCallback (timer : Counter) : Counter :=
  { timer with tickCount := u32 (timer.tickCount + 1) }

def initTimer (timer : Counter) (freq : Nat) : Port Counter := do
  let freq := if freq = 0 then 100 else freq
  let divisor := pitBaseFrequency / freq
  Port.outb 0x43 0x36
  Port.outb 0x40 (divisor % 256)
  Port.outb 0x40 (divisor / 256 % 256)
  pure { timer with frequency := freq, msPerTick := 1000 / freq }

def getTimeMs (timer : Counter) : Nat := u32 (timer.tickCount * timer.msPerTick)

/-- The loop of `delay_ms`.  Each evaluation of its condition finds that the
interrupt has come some number of times since the one before it; the loop may
still be waiting when the evaluations end. -/
def waitUntil (start ms : Nat) : Counter → List Nat → Option (Counter × List Nat)
  | _, [] => none
  | timer, ticks :: evaluations =>
      let timer := timerCallback^[ticks] timer
      if sub32 (getTimeMs timer) start < ms then waitUntil start ms timer evaluations
      else some (timer, evaluations)

def delayMs (timer : Counter) (ms : Nat) (evaluations : List Nat) : Option (Counter × List Nat) :=
  waitUntil (getTimeMs timer) ms timer evaluations

section

variable {timer after : Counter} {ms elapsed : Nat} {evaluations rest : List Nat}

theorem msPerTick_iterate (timer : Counter) (ticks : Nat) :
    (timerCallback^[ticks] timer).msPerTick = timer.msPerTick := by
  induction ticks with
  | zero => rfl
  | succ ticks ih =>
      rw [Function.iterate_succ_apply']
      exact ih

theorem tickCount_iterate (timer : Counter) (ticks : Nat) :
    u32 (timerCallback^[ticks] timer).tickCount = u32 (timer.tickCount + ticks) := by
  induction ticks with
  | zero => rfl
  | succ ticks ih =>
      rw [Function.iterate_succ_apply']
      simp only [timerCallback, u32] at ih ⊢
      omega

/-- The measured time is the time of the ticks since the start, up to the
width of the counter: the wraps of the counter and of the product cancel. -/
theorem measured_eq (timer : Counter) (ticks : Nat) :
    sub32 (getTimeMs (timerCallback^[ticks] timer)) (getTimeMs timer) =
      u32 (ticks * timer.msPerTick) := by
  have counted : (timerCallback^[ticks] timer).tickCount * timer.msPerTick ≡
      timer.tickCount * timer.msPerTick + ticks * timer.msPerTick [MOD 4294967296] := by
    have ticked : (timerCallback^[ticks] timer).tickCount ≡ timer.tickCount + ticks
        [MOD 4294967296] := tickCount_iterate timer ticks
    rw [← Nat.add_mul]
    exact ticked.mul_right _
  rw [getTimeMs, getTimeMs, msPerTick_iterate]
  unfold Nat.ModEq at counted
  simp only [sub32, u32]
  omega

/-- Up to the missing number of ticks the product does not wrap, so the
condition compares the two times. -/
theorem waits_iff {m ticks : Nat} (positive : 0 < m) (fits : ms + m ≤ 4294967296)
    (atMost : ticks ≤ ms ⌈/⌉ m) : u32 (ticks * m) < ms ↔ ticks < ms ⌈/⌉ m := by
  have whole : (ms ⌈/⌉ m) * m ≤ ms + m - 1 := by
    rw [Nat.ceilDiv_eq_add_pred_div]
    exact Nat.div_mul_le_self _ m
  have bounded : ticks * m ≤ (ms ⌈/⌉ m) * m := Nat.mul_le_mul_right m atMost
  rw [u32_of_lt (by omega), ← not_le, ← not_le, ceilDiv_le_iff_le_mul positive, Nat.mul_comm]

/-- From a moment before the wait is over, the loop ends at the evaluation
that finds the last missing tick. -/
theorem waitUntil_result (timer : Counter) (positive : 0 < timer.msPerTick)
    (fits : ms + timer.msPerTick ≤ 4294967296) (each : ∀ ticks ∈ evaluations, ticks ≤ 1)
    (early : elapsed < ms ⌈/⌉ timer.msPerTick) :
    match waitUntil (getTimeMs timer) ms (timerCallback^[elapsed] timer) evaluations with
    | none => elapsed + evaluations.sum < ms ⌈/⌉ timer.msPerTick
    | some (after, rest) =>
        ∃ passed, evaluations = passed ++ rest ∧
          elapsed + passed.sum = ms ⌈/⌉ timer.msPerTick ∧
          after = timerCallback^[ms ⌈/⌉ timer.msPerTick] timer := by
  induction evaluations generalizing elapsed with
  | nil => exact early
  | cons ticks evaluations ih =>
      have atMost : ticks ≤ 1 := each ticks (by simp)
      have later : ∀ count ∈ evaluations, count ≤ 1 := fun count member =>
        each count (by simp [member])
      have moved : timerCallback^[ticks] (timerCallback^[elapsed] timer) =
          timerCallback^[elapsed + ticks] timer := by
        rw [← Function.iterate_add_apply, Nat.add_comm]
      have condition : u32 ((elapsed + ticks) * timer.msPerTick) < ms ↔
          elapsed + ticks < ms ⌈/⌉ timer.msPerTick :=
        waits_iff positive fits (by omega)
      rw [waitUntil, moved, measured_eq]
      by_cases waiting : elapsed + ticks < ms ⌈/⌉ timer.msPerTick
      · have tail := ih later waiting
        rw [if_pos (condition.mpr waiting)]
        cases result : waitUntil (getTimeMs timer) ms (timerCallback^[elapsed + ticks] timer)
            evaluations with
        | none =>
            rw [result] at tail
            simpa [Nat.add_assoc] using tail
        | some final =>
            rw [result] at tail
            obtain ⟨passed, split, total, same⟩ := tail
            exact ⟨ticks :: passed, by rw [split, List.cons_append],
              by rw [List.sum_cons, ← Nat.add_assoc, total], same⟩
      · have reached : elapsed + ticks = ms ⌈/⌉ timer.msPerTick := by omega
        rw [if_neg (mt condition.mp waiting)]
        exact ⟨[ticks], rfl, by simpa using reached, by rw [reached]⟩

/-- `delay_ms` waits for the ticks that cover the time asked for, wherever the
counter and the product wrap on the way.  Its condition is evaluated once per
tick: never more than one tick comes between two evaluations, and when no time
is asked for, the tick of the call has its evaluation as well. -/
theorem delayMs_waits (timer : Counter) (ms : Nat) (evaluations : List Nat)
    (positive : 1 ≤ timer.msPerTick) (fits : ms + timer.msPerTick ≤ 4294967296)
    (each : ∀ ticks ∈ evaluations, ticks ≤ 1)
    (first : ms = 0 → evaluations.head? ≠ some 1) :
    (delayMs timer ms evaluations = none →
      evaluations = [] ∨ evaluations.sum < ms ⌈/⌉ timer.msPerTick) ∧
    ∀ after rest, delayMs timer ms evaluations = some (after, rest) →
      ∃ passed, evaluations = passed ++ rest ∧ passed.sum = ms ⌈/⌉ timer.msPerTick ∧
        after = timerCallback^[ms ⌈/⌉ timer.msPerTick] timer := by
  by_cases zero : ms = 0
  · subst zero
    cases evaluations with
    | nil => exact ⟨fun _ => .inl rfl, fun _ _ left => by cases left⟩
    | cons ticks evaluations =>
        have atMost := each ticks (by simp)
        have different : ticks ≠ 1 := by simpa using first rfl
        have same : ticks = 0 := by omega
        subst same
        have nothing : 0 ⌈/⌉ timer.msPerTick = 0 := by simp
        have left : delayMs timer 0 (0 :: evaluations) = some (timer, evaluations) := by
          rw [delayMs, waitUntil, if_neg (Nat.not_lt_zero _)]
          rfl
        rw [left, nothing]
        refine ⟨fun waiting => absurd waiting (by simp), fun after rest same => ?_⟩
        cases same
        exact ⟨[0], rfl, rfl, rfl⟩
  · have early : 0 < ms ⌈/⌉ timer.msPerTick := by
      rw [← not_le, ceilDiv_le_iff_le_mul positive]
      omega
    have result := waitUntil_result timer positive fits each early
    simp only [Nat.zero_add, Function.iterate_zero, id_eq] at result
    refine ⟨fun waiting => .inr ?_, fun after rest left => ?_⟩
    · rw [delayMs] at waiting
      rw [waiting] at result
      exact result
    · rw [delayMs] at left
      rw [left] at result
      exact result

/-- A wait over the wrap of the counter. -/
theorem delayMs_waits_wrap :
    ∃ passed, [0, 1, 0, 1, 1, 1] = passed ++ [1] ∧ passed.sum = 3 := by
  have value : delayMs ⟨4294967294, 100, 10⟩ 25 [0, 1, 0, 1, 1, 1] =
      some (⟨1, 100, 10⟩, [1]) := by decide +kernel
  obtain ⟨passed, split, total, _⟩ :=
    (delayMs_waits ⟨4294967294, 100, 10⟩ 25 [0, 1, 0, 1, 1, 1] (by simp) (by simp) (by simp)
      (by simp)).2 _ _ value
  exact ⟨passed, split, total⟩

/-- Above 1000 Hz a tick counts as no time at all, and no wait ends. -/
theorem delayMs_fast (timer : Counter) {freq : Nat} {answers left : List Nat}
    (fast : 1000 < freq) (started : (initTimer timer freq answers).result = some (after, left))
    (positive : 0 < ms) (evaluations : List Nat) : delayMs after ms evaluations = none := by
  have rate : after.msPerTick = 0 := by
    have nonzero : freq ≠ 0 := by omega
    simp only [initTimer, nonzero, if_false] at started
    cases started
    exact Nat.div_eq_of_lt fast
  suffices ∀ counter : Counter, counter.msPerTick = 0 → ∀ start,
      start = 0 → waitUntil start ms counter evaluations = none by
    exact this after rate _ (by rw [getTimeMs, rate]; rfl)
  induction evaluations with
  | nil => exact fun _ _ _ _ => rfl
  | cons ticks evaluations ih =>
      rintro counter none _ rfl
      have still := (msPerTick_iterate counter ticks).trans none
      have stopped : sub32 (getTimeMs (timerCallback^[ticks] counter)) 0 = 0 := by
        simp [getTimeMs, still, sub32, u32]
      rw [waitUntil, stopped, if_pos positive]
      exact ih _ still 0 rfl

end

end Helios.Timer
