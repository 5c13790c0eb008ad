import Helios.Data.Bus
import Helios.Data.Pic
import Helios.Interrupt.Model

namespace Helios.Interrupt

open Helios.Data

/-! What the interrupt controllers do for the kernel, without their registers. -/

/-- Which lines wait for service, which are disabled, which ones of the second
controller were served without an end of the interrupt there, which one is being
served, the vectors of the interrupts handled so far, and the numbers that
`irq_handler` read for them. -/
structure Lines where
  waiting : Nat → Bool
  disabled : Nat → Bool
  unended : Nat → Bool
  busy : Option Nat
  handled : List Nat
  called : List Nat

/-- The lines of the two controllers, the most urgent one first. -/
def priority : List Nat := [0, 1] ++ (List.range 8).map (8 + ·) ++ [3, 4, 5, 6, 7]

/-- `irq_handler` works on the number that it reads through its argument; the
stubs pass no pointer, so that it need not be the vector. -/
inductive Event where
  | request (line : Nat)
  | acknowledge
  | handle (seen : Nat)
  | software (vector seen : Nat)
  | enable (irq : Nat)
  | disable (irq : Nat)
  | endOfInterrupt (irq : Nat)
deriving DecidableEq, Repr

namespace Lines

/-- The lines of the second controller come through line 2, and wait behind those
of its interrupts that did not end. -/
def enabled (lines : Lines) (line : Nat) : Bool :=
  !lines.disabled line && (line < 8 || !lines.disabled 2) &&
    (List.range (line - 7)).all fun other => !lines.unended (8 + other)

def next (lines : Lines) : Option Nat :=
  priority.find? fun line => lines.waiting line && lines.enabled line

def setDisabled (lines : Lines) (irq : Nat) (value : Bool) : Lines :=
  { lines with disabled := Function.update lines.disabled irq value }

/-- An end of interrupt at the second controller. -/
def endSecond (unended : Nat → Bool) : Nat → Bool :=
  match (List.range 8).find? fun line => unended (8 + line) with
  | none => unended
  | some line => Function.update unended (8 + line) false

/-- The first controller gets its end of interrupt from every call of
`irq_handler`, the second one from those that read 40 or more. -/
def endedBy (seen : Nat) (unended : Nat → Bool) : Nat → Bool :=
  if 40 ≤ seen then endSecond unended else unended

/-- Kernel code other than a handler runs while no interrupt is being served.
`interrupt_handlers` has 256 elements. -/
def step (lines : Lines) : Event → Option Lines
  | .request line =>
      if line < 16 ∧ line ≠ 2 then
        some { lines with waiting := Function.update lines.waiting line true }
      else none
  | .acknowledge =>
      if lines.busy = none then
        lines.next.map fun line =>
          { lines with waiting := Function.update lines.waiting line false, busy := some line }
      else none
  | .handle seen =>
      if seen < 256 then
        lines.busy.map fun line =>
          { lines with
            unended := endedBy seen
              (if line < 8 then lines.unended else Function.update lines.unended line true)
            busy := none
            handled := lines.handled ++ [32 + line]
            called := lines.called ++ [seen] }
      else none
  | .software vector seen =>
      if lines.busy = none ∧ (32 ≤ vector ∧ vector < 48) ∧ seen < 256 then
        some { lines with
          unended := endedBy seen lines.unended
          handled := lines.handled ++ [vector]
          called := lines.called ++ [seen] }
      else none
  | .enable irq => if lines.busy = none ∧ irq < 40 then some (lines.setDisabled irq false) else none
  | .disable irq => if lines.busy = none ∧ irq < 40 then some (lines.setDisabled irq true) else none
  | .endOfInterrupt irq =>
      if lines.busy = none then
        some { lines with unended := if 8 ≤ irq then endSecond lines.unended else lines.unended }
      else none

def initial : Lines :=
  { waiting := fun _ => false, disabled := fun _ => false, unended := fun _ => false
    busy := none, handled := [], called := [] }

end Lines

/-- The controllers, the vector of the interrupt that the processor has taken,
and what the handlers work on. -/
structure System (σ : Type) where
  pair : Pair
  busy : Option Nat
  state : σ

/-- Interrupts are off from the moment the processor takes one until
`irq_handler` returns. -/
inductive Step {σ : Type} (handlers : Nat → Option (σ → σ)) :
    System σ → Event → System σ → Prop
  | request {pair : Pair} {busy : Option Nat} {state : σ} {line : Nat} :
      line < 16 → line ≠ 2 →
      Step handlers ⟨pair, busy, state⟩ (.request line) ⟨pair.raise line, busy, state⟩
  | acknowledge {pair after : Pair} {state : σ} {vector : Nat} :
      pair.acknowledge = some (vector, after) →
      Step handlers ⟨pair, none, state⟩ .acknowledge ⟨after, some vector, state⟩
  | handle {pair after : Pair} {state result : σ} {vector seen : Nat} : seen < 256 →
      Port.Served Pair.step pair (irqHandler handlers seen state) result after →
      Step handlers ⟨pair, some vector, state⟩ (.handle seen) ⟨after, none, result⟩
  | software {pair after : Pair} {state result : σ} {vector seen : Nat} :
      32 ≤ vector ∧ vector < 48 → seen < 256 →
      Port.Served Pair.step pair (irqHandler handlers seen state) result after →
      Step handlers ⟨pair, none, state⟩ (.software vector seen) ⟨after, none, result⟩
  | enable {pair after : Pair} {state : σ} {irq : Nat} : irq < 40 →
      Port.Served Pair.step pair (enableIrq irq) () after →
      Step handlers ⟨pair, none, state⟩ (.enable irq) ⟨after, none, state⟩
  | disable {pair after : Pair} {state : σ} {irq : Nat} : irq < 40 →
      Port.Served Pair.step pair (disableIrq irq) () after →
      Step handlers ⟨pair, none, state⟩ (.disable irq) ⟨after, none, state⟩
  | endOfInterrupt {pair after : Pair} {state : σ} {irq : Nat} :
      Port.Served Pair.step pair (sendEoi irq) () after →
      Step handlers ⟨pair, none, state⟩ (.endOfInterrupt irq) ⟨after, none, state⟩

inductive Steps {σ : Type} (handlers : Nat → Option (σ → σ)) :
    System σ → List Event → System σ → Prop
  | done {system : System σ} : Steps handlers system [] system
  | step {system next final : System σ} {event : Event} {events : List Event} :
      Step handlers system event next → Steps handlers next events final →
      Steps handlers system (event :: events) final

/-- The controllers as `init_pic` sets them up, with the requests and the masks
of the lines. -/
structure Configured (pair : Pair) (lines : Lines) : Prop where
  stages : pair.first.stage = .mask ∧ pair.second.stage = .mask
  bases : pair.first.base = 32 ∧ pair.second.base = 40
  first : ∀ line < 8, line ≠ 2 → pair.first.request line = lines.waiting line
  second : ∀ line < 8, pair.second.request line = lines.waiting (8 + line)
  firstMask : ∀ line < 8, pair.first.mask.getLsbD line = lines.disabled line
  secondMask : ∀ line < 8, pair.second.mask.getLsbD line = lines.disabled (8 + line)

/-- Only the lines on the way of one interrupt are in service, and those of the
second controller that did not end. -/
structure Serves (pair : Pair) (unended : Nat → Bool) (busy : Option Nat) : Prop where
  first : ∀ line < 8, pair.first.service line =
    busy.elim false fun served => if served < 8 then line == served else line == 2
  second : ∀ line < 8, pair.second.service line = (busy == some (8 + line) || unended (8 + line))

section

variable {pair after : Pair} {lines : Lines} {line : Nat}

theorem second_next (configured : Configured pair lines) (serves : Serves pair lines.unended none) :
    pair.second.next = (List.range 8).find? fun line =>
      lines.waiting (8 + line) && !lines.disabled (8 + line) &&
        (List.range (line + 1)).all fun other => !lines.unended (8 + other) := by
  refine List.find?_congr fun line member => ?_
  have small := List.mem_range.mp member
  have quiet : ((List.range (line + 1)).all fun other => !pair.second.service other) =
      (List.range (line + 1)).all fun other => !lines.unended (8 + other) := by
    rw [Bool.eq_iff_iff, List.all_eq_true, List.all_eq_true]
    refine forall₂_congr fun other below => ?_
    rw [serves.second other (by have := List.mem_range.mp below; omega)]
    rfl
  rw [Controller.deliverable, quiet, configured.second line small, configured.secondMask line small]

/-- The controllers after the processor has asked for the vector of a line. -/
def started (pair : Pair) (line : Nat) : Pair :=
  if line < 8 then { pair with first := pair.first.start line }
  else { first := pair.first.start 2, second := pair.second.start (line - 8) }

theorem cascaded_deliverable (configured : Configured pair lines) (serves : Serves pair lines.unended none)
    (small : line < 8) : pair.cascaded.deliverable line =
      if line = 2 then pair.second.next.isSome && !lines.disabled 2
      else lines.waiting line && lines.enabled line := by
  rw [@Controller.deliverable_idle pair.cascaded line serves.first small]
  show (Function.update pair.first.request 2 pair.second.next.isSome line &&
    !pair.first.mask.getLsbD line) = _
  rw [configured.firstMask line small]
  by_cases cascade : line = 2
  · rw [cascade, Function.update_self, if_pos rfl]
  · rw [Function.update_of_ne cascade, if_neg cascade, configured.first line small cascade,
      Lines.enabled, decide_eq_true small, Bool.true_or, Bool.and_true, show line - 7 = 0 by omega,
      List.range_zero, List.all_nil, Bool.and_true]

/-- The first controller looks at its own lines and, in the middle, at the
second controller. -/
theorem cascaded_next (configured : Configured pair lines) (serves : Serves pair lines.unended none) :
    pair.cascaded.next =
      (([0, 1].find? fun line => lines.waiting line && lines.enabled line).or
        (if pair.second.next.isSome && !lines.disabled 2 then some 2 else none)).or
      ([3, 4, 5, 6, 7].find? fun line => lines.waiting line && lines.enabled line) := by
  have quick : ∀ line ∈ [0, 1], pair.cascaded.deliverable line =
      (lines.waiting line && lines.enabled line) := by
    intro line member
    have low : line < 8 ∧ line ≠ 2 := by revert line; decide
    rw [cascaded_deliverable configured serves low.1, if_neg low.2]
  have slow : ∀ line ∈ [3, 4, 5, 6, 7], pair.cascaded.deliverable line =
      (lines.waiting line && lines.enabled line) := by
    intro line member
    have high : line < 8 ∧ line ≠ 2 := by revert line; decide
    rw [cascaded_deliverable configured serves high.1, if_neg high.2]
  have middle : [2].find? pair.cascaded.deliverable =
      if pair.second.next.isSome && !lines.disabled 2 then some 2 else none := by
    rw [List.find?_singleton, cascaded_deliverable configured serves (by omega), if_pos rfl]
  have split : List.range 8 = ([0, 1] ++ [2]) ++ [3, 4, 5, 6, 7] := rfl
  rw [Controller.next, split, List.find?_append, List.find?_append, List.find?_congr quick,
    List.find?_congr slow, middle]

theorem lines_next (configured : Configured pair lines) (serves : Serves pair lines.unended none) :
    lines.next =
      (([0, 1].find? fun line => lines.waiting line && lines.enabled line).or
        (if lines.disabled 2 then none else pair.second.next.map (8 + ·))).or
      ([3, 4, 5, 6, 7].find? fun line => lines.waiting line && lines.enabled line) := by
  have behind : ((List.range 8).map (8 + ·)).find?
      (fun line => lines.waiting line && lines.enabled line) =
        if lines.disabled 2 then none else pair.second.next.map (8 + ·) := by
    rw [List.find?_map, second_next configured serves]
    cases closed : lines.disabled 2 with
    | true => simp [Lines.enabled, closed]
    | false =>
        have shifted : ∀ line, 8 + line - 7 = line + 1 := fun line => by omega
        simp [Lines.enabled, closed, shifted, Bool.and_assoc]
  rw [Lines.next, priority, List.find?_append, List.find?_append, behind]

/-- Without an interrupt in service the most urgent enabled line is next. -/
theorem acknowledge_eq (configured : Configured pair lines) (serves : Serves pair lines.unended none) :
    pair.acknowledge = lines.next.map fun line => (32 + line, started pair line) := by
  rw [Pair.acknowledge, cascaded_next configured serves, lines_next configured serves]
  have quick : ∀ line ∈ [0, 1], line < 8 ∧ line ≠ 2 := by decide
  have slow : ∀ line ∈ [3, 4, 5, 6, 7], line < 8 ∧ line ≠ 2 := by decide
  have direct : ∀ line, line < 8 ∧ line ≠ 2 → (if line = 2 then
      pair.second.next.map fun behind => (pair.second.base + behind,
        { first := pair.first.start 2, second := pair.second.start behind : Pair })
      else some (pair.first.base + line, { pair with first := pair.first.start line })) =
      some (32 + line, started pair line) := by
    rintro line ⟨small, other⟩
    rw [if_neg other, configured.bases.1, started, if_pos small]
  cases early : [0, 1].find? fun line => lines.waiting line && lines.enabled line with
  | some line => exact direct line (quick line (List.mem_of_find?_eq_some early))
  | none =>
      have late : (([3, 4, 5, 6, 7].find? fun line => lines.waiting line && lines.enabled line).bind
          fun line => if line = 2 then
            pair.second.next.map fun behind => (pair.second.base + behind,
              { first := pair.first.start 2, second := pair.second.start behind : Pair })
            else some (pair.first.base + line, { pair with first := pair.first.start line })) =
          ([3, 4, 5, 6, 7].find? fun line => lines.waiting line && lines.enabled line).map
            fun line => (32 + line, started pair line) := by
        cases found : [3, 4, 5, 6, 7].find? fun line => lines.waiting line && lines.enabled line with
        | none => rfl
        | some line => exact direct line (slow line (List.mem_of_find?_eq_some found))
      cases closed : lines.disabled 2 with
      | true => simpa [closed] using late
      | false =>
          cases behind : pair.second.next with
          | none => simpa [closed, behind] using late
          | some behind =>
              simp [configured.bases.2, started, Nat.add_comm]

end

end Helios.Interrupt
