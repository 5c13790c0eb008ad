import Helios.Interrupt.Resume

namespace Helios.Interrupt

open Helios.Data

/-! Interrupts that interrupt handlers.

A gate clears the interrupt flag, but exceptions and the nonmaskable interrupt
still come.  All handlers share one kernel stack, which ends at `top`. -/

/-- Memory is the same from one position up to another. -/
def Keeps (low high : Nat) (before after : Machine) : Prop :=
  ∀ position : Word, low ≤ position.toNat → position.toNat < high →
    after.store position = before.store position

/-- What runs on the stack below `base`: code that keeps what is above, and
interrupts of it at any moment, whose handlers run in the same way. -/
inductive Runs (top : Nat) : Nat → Machine → Machine → Prop
  | start {base : Nat} {machine : Machine} : Runs top base machine machine
  | own {base : Nat} {first middle last : Machine} :
      Runs top base first middle → Keeps base top middle last →
      (last.register .esp).toNat ≤ base → Runs top base first last
  | interrupted {base : Nat} {first middle returned : Machine} {linkage : Linkage} {shape : Stub}
      {error : Option Word} :
      Runs top base first middle → error.isSome = shape.hasError →
      4 * (frame shape error middle).length + 4 ≤ (middle.register .esp).toNat →
      Runs top ((enter linkage shape error middle).register .esp + 4).toNat
        (enter linkage shape error middle) returned →
      returned.register .esp = (enter linkage shape error middle).register .esp + 4 →
      Runs top base first (leave returned)

section

variable {machine returned before middle after : Machine} {linkage : Linkage} {shape : Stub}
variable {error : Option Word} {low high top : Nat}

theorem Keeps.trans (first : Keeps low high before middle) (second : Keeps low high middle after) :
    Keeps low high before after :=
  fun position lower upper => (second position lower upper).trans (first position lower upper)

theorem Keeps.above {more : Nat} (kept : Keeps low high before after) (higher : low ≤ more) :
    Keeps more high before after :=
  fun position lower upper => kept position (higher.trans lower) upper

/-- The frame lies right below the interrupted stack pointer. -/
theorem frame_bottom
    (room : 4 * (frame shape error machine).length + 4 ≤ (machine.register .esp).toNat) :
    ((enter linkage shape error machine).register .esp + 4).toNat +
        4 * (frame shape error machine).length = (machine.register .esp).toNat ∧
      ((enter linkage shape error machine).register .esp).toNat + 4 =
        ((enter linkage shape error machine).register .esp + 4).toNat := by
  have short := @frame_short machine shape error
  rw [(@enter_stack machine linkage shape error).2, pushAll_esp, List.length_cons]
  generalize (frame shape error machine).length = words at room short
  generalize machine.register .esp = esp at room
  have small : esp.toNat < 2 ^ 32 := esp.isLt
  simp only [BitVec.toNat_add, BitVec.toNat_sub, BitVec.toNat_ofNat, BitVec.ofNat_eq_ofNat]
  omega

theorem enter_keeps
    (room : 4 * (frame shape error machine).length + 4 ≤ (machine.register .esp).toNat) :
    Keeps (machine.register .esp).toNat high machine (enter linkage shape error machine) := by
  intro position lower _
  obtain ⟨store, esp⟩ := @enter_stack machine linkage shape error
  obtain ⟨bottom, below⟩ := @frame_bottom machine linkage shape error room
  rw [store]
  apply pushAll_other
  intro byte inside same
  rw [← esp] at same
  rw [List.length_cons] at inside
  have short := @frame_short machine shape error
  have small : (machine.register .esp).toNat < 2 ^ 32 := (machine.register .esp).isLt
  rw [same, BitVec.toNat_add, BitVec.toNat_ofNat] at lower
  omega

/-- A handler that keeps the stack from its frame on returns with its frame. -/
theorem Keeps.handled (ordered : (machine.register .esp).toNat ≤ top)
    (room : 4 * (frame shape error machine).length + 4 ≤ (machine.register .esp).toNat)
    (kept : Keeps ((enter linkage shape error machine).register .esp + 4).toNat top
      (enter linkage shape error machine) returned)
    (esp : returned.register .esp = (enter linkage shape error machine).register .esp + 4) :
    Returned linkage shape error machine returned := by
  refine ⟨esp, fun byte inside => ?_⟩
  obtain ⟨bottom, below⟩ := @frame_bottom machine linkage shape error room
  rw [esp]
  generalize (enter linkage shape error machine).register .esp + 4 = low at bottom kept
  have small : (machine.register .esp).toNat < 2 ^ 32 := (machine.register .esp).isLt
  have position : (low + BitVec.ofNat 32 byte).toNat = low.toNat + byte := by
    rw [BitVec.toNat_add, BitVec.toNat_ofNat]
    omega
  exact kept _ (by omega) (by omega)

/-- One interrupt, given that its handler keeps the stack from its frame on. -/
theorem Keeps.resumes (matched : error.isSome = shape.hasError)
    (ordered : (machine.register .esp).toNat ≤ top)
    (room : 4 * (frame shape error machine).length + 4 ≤ (machine.register .esp).toNat)
    (kept : Keeps ((enter linkage shape error machine).register .esp + 4).toNat top
      (enter linkage shape error machine) returned)
    (esp : returned.register .esp = (enter linkage shape error machine).register .esp + 4) :
    Resumed machine (leave returned) ∧
      Keeps (machine.register .esp).toNat top machine (leave returned) := by
  refine ⟨(kept.handled ordered room esp).resumes matched, ?_⟩
  have handled := (@enter_keeps machine linkage shape error top room).trans
    (kept.above (Nat.le.intro (@frame_bottom machine linkage shape error room).1))
  intro position lower upper
  rw [leave_eq]
  exact handled position lower upper

theorem Runs.keeps {base : Nat} {first last : Machine} (runs : Runs top base first last)
    (ordered : base ≤ top) (esp : (first.register .esp).toNat ≤ base) :
    Keeps base top first last ∧ (last.register .esp).toNat ≤ base := by
  induction runs with
  | start => exact ⟨fun _ _ _ => rfl, esp⟩
  | own _ kept low ih => exact ⟨(ih ordered esp).1.trans kept, low⟩
  | @interrupted _ _ middle _ linkage shape error _ matched room _ back ih handler =>
      obtain ⟨kept, low⟩ := ih ordered esp
      obtain ⟨bottom, below⟩ := @frame_bottom middle linkage shape error room
      have inner := handler (by omega) (by omega)
      obtain ⟨resumed, above⟩ := inner.1.resumes matched (low.trans ordered) room back
      rw [resumed.register]
      exact ⟨kept.trans (above.above low), low⟩

/-- However deeply interrupts nest, each of them resumes what it interrupted,
and what was on the stack then is still there. -/
theorem nested_interrupts_resume (matched : error.isSome = shape.hasError)
    (ordered : (machine.register .esp).toNat ≤ top)
    (room : 4 * (frame shape error machine).length + 4 ≤ (machine.register .esp).toNat)
    (handler : Runs top ((enter linkage shape error machine).register .esp + 4).toNat
      (enter linkage shape error machine) returned)
    (esp : returned.register .esp = (enter linkage shape error machine).register .esp + 4) :
    Resumed machine (leave returned) ∧
      Keeps (machine.register .esp).toNat top machine (leave returned) := by
  obtain ⟨bottom, below⟩ := @frame_bottom machine linkage shape error room
  exact (handler.keeps (by omega) (by omega)).1.resumes matched ordered room esp

/-- A page fault whose handler is interrupted by the nonmaskable interrupt. -/
theorem nested_interrupts_resume_twice :
    let machine : Machine :=
      { register := fun _ => 0x9000, eflags := 0x202, cr3 := 0x1000, eip := 0x100000,
        store := fun _ => 0, cs := 8, segment := fun _ => 0x10 }
    let linkage : Linkage := { selector := 8, entry := 0x101000, site := 0x101040, handler := 0x102000 }
    let fault := enter linkage (.isrErr 14) (some 2) machine
    let second := leave (enter linkage (.isrNoErr 2) none fault).ret
    Resumed machine (leave second.ret) := by
  intro machine linkage fault second
  obtain ⟨bottom, below⟩ : (fault.register .esp + 4).toNat + 4 * 14 = 0x9000 ∧
      (fault.register .esp).toNat + 4 = (fault.register .esp + 4).toNat :=
    @frame_bottom machine linkage (.isrErr 14) (some 2) (by decide)
  have room : 4 * (frame (.isrNoErr 2) none fault).length + 4 ≤ (fault.register .esp).toNat := by
    have more : (frame (.isrNoErr 2) none fault).length = 14 := rfl
    omega
  have inner : Resumed fault second := Returned.ret.resumes rfl
  have stack : second.ret.register .esp = fault.register .esp + 4 := by
    rw [ret_esp, inner.register]
  have own : ∀ {base : Nat} {before : Machine}, Keeps base 0x9000 before before.ret :=
    fun _ _ _ => rfl
  have handler : Runs 0x9000 (fault.register .esp + 4).toNat fault second.ret :=
    .own (.interrupted .start rfl room
      (.own .start own (le_of_eq (congrArg BitVec.toNat (Returned.ret.esp)))) Returned.ret.esp)
      own (le_of_eq (congrArg BitVec.toNat stack))
  exact (nested_interrupts_resume rfl (by decide) (by decide) handler stack).1

end

end Helios.Interrupt
