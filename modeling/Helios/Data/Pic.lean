import Helios.Data.Port

namespace Helios.Data

/-! A pair of 8259 interrupt controllers; the output of the second one is line 2
of the first.  They are edge triggered and fully nested.  A command that is not
described here is refused. -/

/-- What the next byte at the data port of a controller is. -/
inductive Stage where
  | mask
  | vector (single fourth : Bool)
  | cascade (fourth : Bool)
  | mode
deriving DecidableEq, Repr

structure Controller where
  base : Nat
  mask : BitVec 8
  cascade : Nat
  mode : Nat
  stage : Stage
  request : Nat → Bool
  service : Nat → Bool

namespace Controller

variable {controller : Controller} {line : Nat}

/-- The line of the highest priority that is being served has been. -/
def endOfInterrupt (controller : Controller) : Controller :=
  match (List.range 8).find? controller.service with
  | none => controller
  | some line =>
      { controller with service := Function.update controller.service line false }

def command (controller : Controller) (value : Nat) : Option Controller :=
  if value.testBit 4 then
    some { controller with
      mask := 0, mode := 0, request := fun _ => false
      stage := .vector (value.testBit 1) (value.testBit 0) }
  else if value = 0x20 then some controller.endOfInterrupt
  else none

def data (controller : Controller) (value : Nat) : Controller :=
  match controller.stage with
  | .mask => { controller with mask := BitVec.ofNat 8 value }
  | .vector single fourth =>
      { controller with
        base := value / 8 * 8
        stage := if single then (if fourth then .mode else .mask) else .cascade fourth }
  | .cascade fourth =>
      { controller with cascade := value, stage := if fourth then .mode else .mask }
  | .mode => { controller with mode := value, stage := .mask }

/-- A request gets through the mask, and nothing of its priority or above is
being served. -/
def deliverable (controller : Controller) (line : Nat) : Bool :=
  controller.request line && !controller.mask.getLsbD line &&
    (List.range (line + 1)).all fun other => !controller.service other

def next (controller : Controller) : Option Nat :=
  (List.range 8).find? controller.deliverable

def raise (controller : Controller) (line : Nat) : Controller :=
  { controller with request := Function.update controller.request line true }

def start (controller : Controller) (line : Nat) : Controller :=
  { controller with
    request := Function.update controller.request line false
    service := Function.update controller.service line true }

theorem deliverable_idle (idle : ∀ line < 8, controller.service line = false)
    (small : line < 8) : controller.deliverable line =
      (controller.request line && !controller.mask.getLsbD line) := by
  have quiet : ((List.range (line + 1)).all fun other => !controller.service other) = true := by
    rw [List.all_eq_true]
    intro other member
    rw [idle other (by have := List.mem_range.mp member; omega)]
    rfl
  rw [deliverable, quiet, Bool.and_true]

/-- The end of an interrupt concerns the lines in service only. -/
theorem endOfInterrupt_eq : controller.endOfInterrupt =
    { controller with service := controller.endOfInterrupt.service } := by
  unfold endOfInterrupt
  split <;> rfl

theorem endOfInterrupt_service : controller.endOfInterrupt.service =
    match (List.range 8).find? controller.service with
    | none => controller.service
    | some line => Function.update controller.service line false := by
  unfold endOfInterrupt
  split <;> rfl

theorem endOfInterrupt_idle (idle : ∀ line < 8, controller.service line = false) :
    controller.endOfInterrupt = controller := by
  have none : (List.range 8).find? controller.service = none := by
    rw [List.find?_range_eq_none]
    intro line small
    rw [idle line small]
    rfl
  rw [endOfInterrupt, none]

/-- The only line in service is the one that ends. -/
theorem endOfInterrupt_single {served : Nat} (small : served < 8)
    (single : ∀ line < 8, controller.service line = (line == served)) :
    ∀ line < 8, controller.endOfInterrupt.service line = false := by
  have found : (List.range 8).find? controller.service = some served := by
    rw [List.find?_range_eq_some]
    refine ⟨by rw [single served small, beq_self_eq_true], List.mem_range.mpr small, ?_⟩
    intro line earlier
    rw [single line (by omega)]
    simpa using (by omega : line ≠ served)
  intro line low
  rw [endOfInterrupt, found]
  by_cases same : line = served
  · rw [same]
    exact Function.update_self _ _ _
  · refine (Function.update_of_ne same _ _).trans ?_
    rw [single line low]
    simpa using same

end Controller

structure Pair where
  first : Controller
  second : Controller

namespace Pair

/-- The first controller, with the second one's output at its line 2. -/
def cascaded (pair : Pair) : Controller :=
  { pair.first with
    request := Function.update pair.first.request 2 pair.second.next.isSome }

def raise (pair : Pair) (line : Nat) : Pair :=
  if line < 8 then { pair with first := pair.first.raise line }
  else { pair with second := pair.second.raise (line - 8) }

/-- The processor asks for the vector of an interrupt. -/
def acknowledge (pair : Pair) : Option (Nat × Pair) :=
  pair.cascaded.next.bind fun line =>
    if line = 2 then
      pair.second.next.map fun behind =>
        (pair.second.base + behind,
          { first := pair.first.start 2, second := pair.second.start behind })
    else some (pair.first.base + line, { pair with first := pair.first.start line })

/-- The ports of the pair; nothing is connected to port `0x80`. -/
def step (pair : Pair) : Access × Option Nat → Option Pair
  | (.outb port value, none) =>
      if port = 0x20 then (pair.first.command value).map fun first => { pair with first }
      else if port = 0x21 then some { pair with first := pair.first.data value }
      else if port = 0xA0 then (pair.second.command value).map fun second => { pair with second }
      else if port = 0xA1 then some { pair with second := pair.second.data value }
      else if port = 0x80 then some pair
      else none
  | (.inb port, some value) =>
      if port = 0x21 ∧ value = pair.first.mask.toNat then some pair
      else if port = 0xA1 ∧ value = pair.second.mask.toNat then some pair
      else none
  | _ => none

end Pair

end Helios.Data
