import Helios.Interrupt.Lines

namespace Helios.Interrupt

open Helios.Data

/-! What the functions of `irq.c` do to the interrupt controllers. -/

/-- The controllers after their ends of interrupt. -/
def ended (pair : Pair) (both : Prop) [Decidable both] : Pair :=
  { first := pair.first.endOfInterrupt
    second := if both then pair.second.endOfInterrupt else pair.second }

def applyHandler {σ : Type} (handlers : Nat → Option (σ → σ)) (state : σ) (vector : Nat) : σ :=
  (handlers vector).elim state (· state)

section

variable {σ : Type} {handlers : Nat → Option (σ → σ)} {state result : σ}
variable {pair after : Pair} {lines : Lines} {line irq vector port value : Nat}

theorem command_end {controller : Controller} :
    controller.command picEoi = some controller.endOfInterrupt := by
  rw [Controller.command, if_neg (by decide), if_pos (by decide)]

theorem step_firstEnd : pair.step (.outb pic1Cmd picEoi, none) =
    some { pair with first := pair.first.endOfInterrupt } := by
  rw [Pair.step, if_pos (by decide), command_end]
  rfl

theorem step_secondEnd : pair.step (.outb pic2Cmd picEoi, none) =
    some { pair with second := pair.second.endOfInterrupt } := by
  rw [Pair.step, if_neg (by decide), if_neg (by decide), if_pos (by decide), command_end]
  rfl

theorem served_sendEoi {value : Unit} : Port.Served Pair.step pair (sendEoi irq) value after ↔
    after = ended pair (irq ≥ 8) := by
  by_cases behind : irq ≥ 8
  · simp [sendEoi, behind, Port.served_outb_bind, Port.served_outb, step_firstEnd,
      step_secondEnd, ended, eq_comm]
  · simp [sendEoi, behind, Port.served_outb, step_firstEnd, ended, eq_comm]

theorem served_irqHandler :
    Port.Served Pair.step pair (irqHandler handlers vector state) result after ↔
      result = applyHandler handlers state vector ∧ after = ended pair (vector ≥ 40) := by
  cases registered : handlers vector
  all_goals by_cases behind : vector ≥ 40
  all_goals simp [irqHandler, applyHandler, registered, behind, Port.served_outb_bind,
    Port.served_pure, step_firstEnd, step_secondEnd, ended, eq_comm]

/-- The ends of interrupt ask for no answer. -/
theorem irqHandler_result {answers : List Nat} :
    (irqHandler handlers vector state answers).result =
      some (applyHandler handlers state vector, answers) := by
  unfold irqHandler applyHandler
  by_cases behind : vector ≥ 40
  all_goals cases handlers vector <;> simp [behind] <;> rfl

/-! The masks. -/

theorem one_shifted {bit : Nat} (wide : line < 32) :
    (1#32 <<< bit).getLsbD line = (line == bit) := by
  rw [BitVec.getLsbD_shiftLeft, BitVec.getLsbD_one, decide_eq_true wide]
  rcases Nat.lt_trichotomy line bit with below | same | above
  · simp [below, Nat.ne_of_lt below]
  · simp [same]
  · simp [Nat.not_lt_of_gt above, Nat.ne_of_gt above, Nat.sub_eq_zero_iff_le, Nat.not_le_of_gt above]

theorem bit_cleared {mask : BitVec 8} {bit : Nat} (small : line < 8) :
    (BitVec.ofNat 8 ((BitVec.ofNat 32 mask.toNat &&& ~~~(1#32 <<< bit)).toNat % 256)).getLsbD line =
      (mask.getLsbD line && !(line == bit)) := by
  have wide : line < 32 := by omega
  rw [show (256 : Nat) = 2 ^ 8 from rfl, ← BitVec.toNat_setWidth, BitVec.ofNat_toNat,
    BitVec.setWidth_eq, BitVec.getLsbD_setWidth, BitVec.getLsbD_and, BitVec.getLsbD_not,
    one_shifted wide, BitVec.ofNat_toNat, BitVec.getLsbD_setWidth]
  simp [small, wide]

theorem bit_set {mask : BitVec 8} {bit : Nat} (small : line < 8) :
    (BitVec.ofNat 8 ((BitVec.ofNat 32 mask.toNat ||| 1#32 <<< bit).toNat % 256)).getLsbD line =
      (mask.getLsbD line || line == bit) := by
  have wide : line < 32 := by omega
  rw [show (256 : Nat) = 2 ^ 8 from rfl, ← BitVec.toNat_setWidth, BitVec.ofNat_toNat,
    BitVec.setWidth_eq, BitVec.getLsbD_setWidth, BitVec.getLsbD_or, one_shifted wide,
    BitVec.ofNat_toNat, BitVec.getLsbD_setWidth]
  simp [small, wide]

/-- The controllers with another mask on the one that has a line. -/
def remasked (pair : Pair) (irq : Nat) (change : Nat → Nat) : Pair :=
  if irq < 8 then
    { pair with first := { pair.first with mask := BitVec.ofNat 8 (change pair.first.mask.toNat) } }
  else
    { pair with second := { pair.second with mask := BitVec.ofNat 8 (change pair.second.mask.toNat) } }

theorem served_remask {change : Nat → Nat} {value : Unit}
    (stages : pair.first.stage = .mask ∧ pair.second.stage = .mask) :
    Port.Served Pair.step pair (do
      let value ← Port.inb (dataPort irq).1
      Port.outb (dataPort irq).1 (change value)) value after ↔ after = remasked pair irq change := by
  have firstSmall : pair.first.mask.toNat < 256 := pair.first.mask.isLt
  have secondSmall : pair.second.mask.toNat < 256 := pair.second.mask.isLt
  by_cases front : irq < 8
  · simp [Port.served_inb_bind, Port.served_outb, dataPort, remasked, front, pic1Data, Pair.step,
      Controller.data, stages, eq_comm, firstSmall]
  · simp [Port.served_inb_bind, Port.served_outb, dataPort, remasked, front, pic2Data, Pair.step,
      Controller.data, stages, eq_comm, secondSmall]

/-- A change of one bit of a mask concerns that line only. -/
theorem Configured.remask {change : Nat → Nat} {disabled : Bool}
    (configured : Configured pair lines)
    (changed : ∀ mask : BitVec 8, ∀ line < 8, (BitVec.ofNat 8 (change mask.toNat)).getLsbD line =
      if line = (dataPort irq).2 then disabled else mask.getLsbD line) :
    Configured (remasked pair irq change) (lines.setDisabled irq disabled) := by
  unfold remasked
  by_cases front : irq < 8
  · rw [if_pos front]
    rw [dataPort, if_pos front] at changed
    refine ⟨configured.stages, configured.bases, configured.first, configured.second, ?_, ?_⟩
    · intro line small
      refine (changed _ line small).trans ?_
      rw [configured.firstMask line small]
      exact (Function.update_apply _ _ _ _).symm
    · intro line small
      exact (configured.secondMask line small).trans
        (Function.update_of_ne (by omega : 8 + line ≠ irq) _ _).symm
  · rw [if_neg front]
    rw [dataPort, if_neg front] at changed
    refine ⟨configured.stages, configured.bases, configured.first, configured.second, ?_, ?_⟩
    · intro line small
      exact (configured.firstMask line small).trans
        (Function.update_of_ne (by omega : line ≠ irq) _ _).symm
    · intro line small
      refine (changed _ line small).trans ?_
      rw [configured.secondMask line small]
      by_cases here : 8 + line = irq
      · rw [if_pos (by omega), here]
        exact (Function.update_self irq disabled lines.disabled).symm
      · rw [if_neg (by omega)]
        exact (Function.update_of_ne here _ _).symm

theorem served_enableIrq {value : Unit} (configured : Configured pair lines)
    (served : Port.Served Pair.step pair (enableIrq irq) value after) :
    Configured after (lines.setDisabled irq false) ∧
      after.first.service = pair.first.service ∧ after.second.service = pair.second.service := by
  have rewritten : after = remasked pair irq fun value =>
      (BitVec.ofNat 32 value &&& ~~~(1#32 <<< (dataPort irq).2)).toNat % 256 :=
    (served_remask configured.stages).mp served
  rw [rewritten]
  refine ⟨configured.remask fun mask line small => ?_, ?_⟩
  · rw [bit_cleared small]
    by_cases here : line = (dataPort irq).2 <;> simp [here]
  · unfold remasked
    split <;> exact ⟨rfl, rfl⟩

theorem served_disableIrq {value : Unit} (configured : Configured pair lines)
    (served : Port.Served Pair.step pair (disableIrq irq) value after) :
    Configured after (lines.setDisabled irq true) ∧
      after.first.service = pair.first.service ∧ after.second.service = pair.second.service := by
  have rewritten : after = remasked pair irq fun value =>
      (BitVec.ofNat 32 value ||| 1#32 <<< (dataPort irq).2).toNat % 256 :=
    (served_remask configured.stages).mp served
  rw [rewritten]
  refine ⟨configured.remask fun mask line small => ?_, ?_⟩
  · rw [bit_set small]
    by_cases here : line = (dataPort irq).2 <;> simp [here]
  · unfold remasked
    split <;> exact ⟨rfl, rfl⟩

/-- `init_pic` sets up both controllers, whatever they were doing. -/
theorem served_initPic {value : Unit} : Port.Served Pair.step pair initPic value after ↔ after =
    { first := { pair.first with
        base := 32, mask := 0, cascade := 4, mode := 1, stage := .mask, request := fun _ => false }
      second := { pair.second with
        base := 40, mask := 0, cascade := 2, mode := 1, stage := .mask, request := fun _ => false } } := by
  have first : pair.first.mask.toNat < 256 := pair.first.mask.isLt
  have second : pair.second.mask.toNat < 256 := pair.second.mask.isLt
  simp [initPic, ioWait, Port.served_inb_bind, Port.served_outb_bind, Port.served_outb, Pair.step,
    pic1Data, pic2Data, pic1Cmd, pic2Cmd, picInit, pic1Offset, pic2Offset, pic8086,
    Controller.command, Controller.data, Nat.testBit, first, second, eq_comm]

end

end Helios.Interrupt
