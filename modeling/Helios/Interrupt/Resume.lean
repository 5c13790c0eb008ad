import Helios.Interrupt.Stubs

namespace Helios.Interrupt

open Helios.Data

/-! What becomes of an interrupted context. -/

/-- The handler has returned, and the stack above its return address is as it
was when the handler was called. -/
structure Returned (linkage : Linkage) (shape : Stub) (error : Option Word)
    (machine returned : Machine) : Prop where
  esp : returned.register .esp = (enter linkage shape error machine).register .esp + 4
  kept : ∀ byte < 4 * (frame shape error machine).length,
    returned.store (returned.register .esp + BitVec.ofNat 32 byte) =
      (enter linkage shape error machine).store (returned.register .esp + BitVec.ofNat 32 byte)

/-- A context is resumed: it goes on where it was interrupted, with the values
its registers had. -/
structure Resumed (machine after : Machine) : Prop where
  eip : after.eip = machine.eip
  cs : after.cs = machine.cs
  eflags : after.eflags = machine.eflags
  register : after.register = machine.register
  ds : after.segment .ds = machine.segment .ds

/-- The stub leaves room for an error code. -/
def Stub.hasError : Stub → Bool
  | .isrNoErr _ => false
  | .isrErr _ => true
  | .irq _ _ => false

section

variable {machine returned : Machine} {linkage : Linkage} {shape : Stub} {error : Option Word}
variable {index : Nat} {value : Word}

theorem frame_length : (frame shape error machine).length =
    12 + shape.pushed.length + error.toList.length := by
  simp only [frame, pushedBefore, List.length_append, List.length_cons, List.length_nil]
  omega

theorem frame_short : (frame shape error machine).length ≤ 15 := by
  rw [frame_length]
  cases shape <;> cases error <;> simp [Stub.pushed]

/-- The stack at the first instruction of the handler, word by word. -/
theorem enter_word (here : (linkage.site :: frame shape error machine)[index]? = some value) :
    (enter linkage shape error machine).word (4 * index) = value := by
  have short := @frame_short machine shape error
  obtain ⟨store, esp⟩ := @enter_stack machine linkage shape error
  have pushed := @pushAll_read machine.toCpu (linkage.site :: frame shape error machine) index
    value (by rw [List.length_cons]; omega) here
  rw [← store, ← esp] at pushed
  exact pushed

/-- The words above the return address. -/
theorem Returned.word (back : Returned linkage shape error machine returned)
    (here : (frame shape error machine)[index]? = some value) :
    returned.word (4 * index) = value := by
  have inside : index < (frame shape error machine).length := (List.getElem?_eq_some_iff.mp here).1
  have pushed := @enter_word machine linkage shape error (index + 1) value (by simpa using here)
  rw [Machine.word] at pushed
  have above : (enter linkage shape error machine).register .esp + BitVec.ofNat 32 (4 * (index + 1)) =
      returned.register .esp + BitVec.ofNat 32 (4 * index) := by
    rw [back.esp, Nat.mul_succ, BitVec.ofNat_add]
    bv_omega
  rw [above] at pushed
  rw [Machine.word, ← pushed]
  exact Store.read_kept back.kept (by omega)

/-- The frame ends where the stack was. -/
theorem enter_bottom : (enter linkage shape error machine).register .esp + 4 +
    BitVec.ofNat 32 (4 * (frame shape error machine).length) = machine.register .esp := by
  rw [(@enter_stack machine linkage shape error).2, pushAll_esp, List.length_cons,
    Nat.mul_succ, BitVec.ofNat_add]
  bv_omega

/-- The handler returns to the bottom of the frame. -/
theorem Returned.bottom (back : Returned linkage shape error machine returned) :
    returned.register .esp + BitVec.ofNat 32 (4 * (frame shape error machine).length) =
      machine.register .esp := by
  rw [back.esp]
  exact enter_bottom

/-- The stub and the processor together always push a vector and one more word. -/
theorem pushedBefore_matched (matched : error.isSome = shape.hasError) :
    ∃ vector code, pushedBefore shape error machine =
      [vector, code, machine.eip, machine.cs.setWidth 32, machine.eflags] := by
  cases shape <;> cases error <;> cases matched <;> exact ⟨_, _, rfl⟩

theorem Returned.general (back : Returned linkage shape error machine returned)
    (register : Register) (notStack : register ≠ .esp) :
    returned.word (slot register) = machine.register register := by
  cases register
  case esp => exact absurd rfl notStack
  case edi => exact @Returned.word _ _ _ _ _ 1 _ back rfl
  case esi => exact @Returned.word _ _ _ _ _ 2 _ back rfl
  case ebp => exact @Returned.word _ _ _ _ _ 3 _ back rfl
  case ebx => exact @Returned.word _ _ _ _ _ 5 _ back rfl
  case edx => exact @Returned.word _ _ _ _ _ 6 _ back rfl
  case ecx => exact @Returned.word _ _ _ _ _ 7 _ back rfl
  case eax => exact @Returned.word _ _ _ _ _ 8 _ back rfl

theorem Returned.segments (back : Returned linkage shape error machine returned) :
    (leave returned).segment = fun _ => machine.segment .ds := by
  have word := @Returned.word _ _ _ _ _ 0 _ back rfl
  rw [leave_eq]
  funext segment
  show (returned.word 0).setWidth 16 = machine.segment .ds
  rw [word]
  exact BitVec.setWidth_append_eq_right

theorem Returned.resumes (back : Returned linkage shape error machine returned)
    (matched : error.isSome = shape.hasError) : Resumed machine (leave returned) := by
  obtain ⟨vector, code, before⟩ := @pushedBefore_matched machine shape error matched
  have words : frame shape error machine =
      (frame shape error machine).take 9 ++
        [vector, code, machine.eip, machine.cs.setWidth 32, machine.eflags] := by
    rw [← before]
    rfl
  have length : (frame shape error machine).length = 14 := by rw [words]; rfl
  have eip := @Returned.word _ _ _ _ _ 11 machine.eip back (by rw [words]; rfl)
  have cs := @Returned.word _ _ _ _ _ 12 (machine.cs.setWidth 32) back (by rw [words]; rfl)
  have eflags := @Returned.word _ _ _ _ _ 13 machine.eflags back (by rw [words]; rfl)
  have esp := back.bottom
  rw [length] at esp
  refine ⟨?_, ?_, ?_, ?_, congrFun back.segments .ds⟩
  · rw [leave_eq]
    exact eip
  · rw [leave_eq]
    show (returned.word 48).setWidth 16 = machine.cs
    rw [cs, BitVec.setWidth_setWidth_of_le _ (by omega), BitVec.setWidth_eq]
  · rw [leave_eq]
    exact eflags
  · rw [leave_eq]
    funext register
    by_cases stack : register = .esp
    · rw [stack]
      exact esp
    · exact (if_neg stack).trans (back.general register stack)

/-- A frame of another size leaves the stack pointer beside the interrupted one. -/
theorem Returned.resumed_matched (back : Returned linkage shape error machine returned)
    (resumed : Resumed machine (leave returned)) : error.isSome = shape.hasError := by
  have esp := congrFun resumed.register .esp
  rw [← back.bottom, leave_eq] at esp
  have same : returned.register .esp + 56 =
      returned.register .esp + BitVec.ofNat 32 (4 * (frame shape error machine).length) := esp
  rw [BitVec.add_right_inj] at same
  have short := @frame_short machine shape error
  have length : 56 = 4 * (frame shape error machine).length := by
    have equal := congrArg BitVec.toNat same
    rw [BitVec.toNat_ofNat, Nat.mod_eq_of_lt (by omega)] at equal
    exact equal
  rw [frame_length] at length
  cases shape <;> cases error <;> simp_all [Stub.pushed, Stub.hasError]

theorem Returned.resumed_iff (back : Returned linkage shape error machine returned) :
    Resumed machine (leave returned) ↔ error.isSome = shape.hasError :=
  ⟨back.resumed_matched, back.resumes⟩

/-- A handler that does nothing but return. -/
theorem Returned.ret : Returned linkage shape error machine
    (enter linkage shape error machine).ret where
  esp := ret_esp
  kept _ _ := rfl

/-- An interrupt whose handler keeps its stack frame resumes the interrupted
context if and only if the stub expects an error code where the processor
pushes one; `es`, `fs` and `gs` get the value of `ds`, and memory stays as the
handler left it. -/
theorem interrupt_resumes_iff (back : Returned linkage shape error machine returned) :
    (Resumed machine (leave returned) ↔ error.isSome = shape.hasError) ∧
      (leave returned).segment = (fun _ => machine.segment .ds) ∧
      (leave returned).store = returned.store :=
  ⟨back.resumed_iff, back.segments, by rw [leave_eq]⟩

theorem interrupt_resumes_iff_pageFault :
    let machine : Machine :=
      { register := fun _ => 0x9000, eflags := 0x202, cr3 := 0x1000, eip := 0x100000,
        store := fun _ => 0, cs := 8, segment := fun _ => 0x10 }
    let linkage : Linkage := { selector := 8, entry := 0x101000, site := 0x101040, handler := 0x102000 }
    Resumed machine (leave (enter linkage (.isrErr 14) (some 2) machine).ret) :=
  (interrupt_resumes_iff Returned.ret).1.mpr rfl

end

/-- The handlers are declared with a pointer to the frame, and the frame is what
lies above their return address: what they take for the pointer is its lowest
word, the data segment below half of `eax`.  That is the address of the frame
for one value of the interrupted stack pointer only. -/
theorem handler_argument (machine : Machine) (linkage : Linkage) (shape : Stub)
    (error : Option Word) :
    let entered := enter linkage shape error machine
    let argument := (machine.register .eax).extractLsb' 16 16 ++ machine.segment .ds
    entered.word 4 = argument ∧
      (∀ index < (frame shape error machine).length,
        (frame shape error machine)[index]? = some (entered.word (4 * (index + 1)))) ∧
      (argument = entered.register .esp + 4 ↔ machine.register .esp =
        argument + BitVec.ofNat 32 (4 * (frame shape error machine).length)) := by
  intro entered argument
  refine ⟨@enter_word machine linkage shape error 1 argument rfl, fun index inside => ?_, ?_⟩
  · have here : (linkage.site :: frame shape error machine)[index + 1]? =
        some ((frame shape error machine)[index]) := by
      rw [List.getElem?_cons_succ]
      exact List.getElem?_eq_getElem inside
    rw [enter_word here]
    exact List.getElem?_eq_getElem inside
  · have bottom := @enter_bottom machine linkage shape error
    constructor
    · intro same
      rw [same]
      exact bottom.symm
    · intro same
      rw [← bottom, BitVec.add_left_inj] at same
      exact same.symm

/-! The stubs for the vectors of the processor. -/

/-- The exceptions for which the processor pushes an error code. -/
def errorVectors : List Nat := [8, 10, 11, 12, 13, 14, 17, 21, 29, 30]

/-- What the processor pushes for a vector when it does not come from `int`. -/
def errorCode (vector : Nat) (code : Word) : Option Word :=
  if vector ∈ errorVectors then some code else none

theorem stub_hasError {vector : Nat} {shape : Stub} (found : stub vector = some shape) :
    vector < 48 ∧ shape.hasError = decide (vector ∈ [8, 10, 11, 12, 13, 14]) := by
  unfold stub at found
  split at found
  · cases found
    simp_all only [Stub.hasError, decide_true, and_true, List.mem_cons, List.not_mem_nil, or_false]
    omega
  · split at found
    · cases found
      simp_all only [Stub.hasError, decide_false, and_true]
      omega
    · split at found
      · cases found
        simp_all [Stub.hasError]
      · cases found

theorem matched_exceptions : ∀ vector < 48,
    (decide (vector ∈ errorVectors) = decide (vector ∈ [8, 10, 11, 12, 13, 14]) ↔
      vector ∉ [17, 21, 29, 30]) ∧
    (false = decide (vector ∈ [8, 10, 11, 12, 13, 14]) ↔ vector ∉ [8, 10, 11, 12, 13, 14]) := by
  decide

/-- Every exception and every interrupt request resumes the interrupted context
but the four exceptions whose error code the stubs miss; `int` resumes it but
for the six vectors whose stubs expect an error code. -/
theorem vector_resumes_iff {vector : Nat} {shape : Stub} {machine returned : Machine}
    {linkage : Linkage} {code : Word} (found : stub vector = some shape) :
    (Returned linkage shape (errorCode vector code) machine returned →
      (Resumed machine (leave returned) ↔ vector ∉ [17, 21, 29, 30])) ∧
    (Returned linkage shape none machine returned →
      (Resumed machine (leave returned) ↔ vector ∉ [8, 10, 11, 12, 13, 14])) := by
  obtain ⟨small, coded⟩ := stub_hasError found
  obtain ⟨raised, called⟩ := matched_exceptions vector small
  have pushed : (errorCode vector code).isSome = decide (vector ∈ errorVectors) := by
    rw [errorCode]
    split <;> simp_all
  refine ⟨fun back => ?_, fun back => ?_⟩
  · rw [back.resumed_iff, pushed, coded]
    exact raised
  · rw [back.resumed_iff, coded]
    exact called

/-- An alignment check does not go back to where it was raised. -/
theorem vector_resumes_iff_alignment :
    let machine : Machine :=
      { register := fun _ => 0x9000, eflags := 0x202, cr3 := 0x1000, eip := 0x100000,
        store := fun _ => 0, cs := 8, segment := fun _ => 0x10 }
    let linkage : Linkage := { selector := 8, entry := 0x101000, site := 0x101040, handler := 0x102000 }
    ¬Resumed machine (leave (enter linkage (.isrNoErr 17) (errorCode 17 0) machine).ret) ∧
      Resumed machine (leave (enter linkage (.isrNoErr 17) none machine).ret) := by
  intro machine linkage
  refine ⟨fun resumed => ?_, ?_⟩
  · exact ((@vector_resumes_iff 17 (.isrNoErr 17) _ _ _ 0 rfl).1 Returned.ret).mp resumed (by decide)
  · exact ((@vector_resumes_iff 17 (.isrNoErr 17) _ _ _ 0 rfl).2 Returned.ret).mpr (by decide)

end Helios.Interrupt
