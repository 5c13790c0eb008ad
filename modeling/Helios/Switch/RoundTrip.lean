import Helios.Switch.Model

namespace Helios.Switch

open Helios.Data

/-! Saving a context and resuming it.

The routine uses 36 bytes of the caller's stack: from 28 bytes below the return
address, where the flags are pushed, to the end of the argument.  Addresses are
written as distances from the lowest of these bytes, `frame`. -/

/-- The first three words of the control block are not in the stack frame. -/
def Separate (pcb frame : Word) : Prop :=
  ∀ index < 12, ∀ offset < 36, pcb + BitVec.ofNat 32 index ≠ frame + BitVec.ofNat 32 offset

/-- Memory at `.load_new`. -/
def savedStore (cpu : Cpu) (site current frame : Word) : Store :=
  let flags := testFlags cpu.eflags current
  ((((((((((cpu.store.write (frame + 24#32) site).write (frame + 24#32) (cpu.register .ebx)).write
    (frame + 20#32) (cpu.register .ecx)).write (frame + 16#32) (cpu.register .edx)).write
    (frame + 12#32) (cpu.register .esi)).write (frame + 8#32) (cpu.register .edi)).write
    (frame + 4#32) (cpu.register .ebp)).write (current + 0#32) (frame + 4#32)).write
    (frame + 0#32) flags).write (current + 4#32) flags).write (current + 8#32) cpu.cr3

section

variable {cpu : Cpu} {site current frame : Word}

theorem Separate.apart {index offset : Nat} (separate : Separate current frame)
    (inside : index + 4 ≤ 12) (within : offset + 4 ≤ 36) :
    Store.Apart (current + BitVec.ofNat 32 index) (frame + BitVec.ofNat 32 offset) := by
  intro left leftMember right rightMember
  obtain ⟨more, few, leftEq⟩ := Store.offset_byte current index leftMember
  obtain ⟨further, less, rightEq⟩ := Store.offset_byte frame offset rightMember
  rw [leftEq, rightEq]
  exact separate _ (by omega) _ (by omega)

theorem Separate.read_frame {store : Store} {value : Word} {index offset : Nat}
    (separate : Separate current frame) (inside : index + 4 ≤ 12) (within : offset + 4 ≤ 36) :
    (store.write (current + BitVec.ofNat 32 index) value).read (frame + BitVec.ofNat 32 offset) =
      store.read (frame + BitVec.ofNat 32 offset) :=
  Store.read_write_apart (separate.apart inside within)

theorem Separate.read_pcb {store : Store} {value : Word} {index offset : Nat}
    (separate : Separate current frame) (inside : index + 4 ≤ 12) (within : offset + 4 ≤ 36) :
    (store.write (frame + BitVec.ofNat 32 offset) value).read (current + BitVec.ofNat 32 index) =
      store.read (current + BitVec.ofNat 32 index) :=
  Store.read_write_apart (separate.apart inside within).symm

theorem atLoad_saved (notNull : current ≠ 0) (top : cpu.register .esp = frame + 28#32) :
    (atLoad cpu site current).register .esp = frame + 4#32 ∧
      (atLoad cpu site current).store = savedStore cpu site current frame := by
  have down : ∀ above below : Word, frame + above - below = frame + (above - below) :=
    fun above below => by rw [BitVec.sub_eq_add_neg, BitVec.add_assoc, ← BitVec.sub_eq_add_neg]
  have eax : ((callGetCurrentProcess cpu site current).test .eax).register .eax = current := by
    simp [callGetCurrentProcess, Cpu.test, Cpu.set]
  rw [atLoad, eax, if_neg notNull]
  simp [callGetCurrentProcess, Cpu.test, Cpu.push, Cpu.pop, Cpu.set, execute, saveContext,
    Instruction.exec, top, down, BitVec.add_assoc, Store.read_write_same, savedStore, kernelEsp,
    eflags, pageDirPhys]

/-- What the saved words of a control block say about the processor that
`.load_new` leaves. -/
structure Resumes (store : Store) (pcb low : Word) (resumed : Cpu) : Prop where
  ebp : resumed.register .ebp = store.read low
  edi : resumed.register .edi = store.read (low + 4#32)
  esi : resumed.register .esi = store.read (low + 8#32)
  ebx : resumed.register .ebx = store.read (low + 20#32)
  esp : resumed.register .esp = low + 28#32
  eip : resumed.eip = store.read (low + 24#32)
  cr3 : resumed.cr3 = store.read (pcb + 8#32)
  eflags : resumed.eflags = store.read (pcb + 4#32)

theorem loadNew_context {pcb low : Word} (notNull : pcb ≠ 0)
    (argument : cpu.store.read (cpu.register .esp + 28#32) = pcb)
    (saved : cpu.store.read pcb = low) :
    ∃ context : Cpu, loadNew cpu = some (execute context [.pushMemory .eax eflags, .popfd]).ret ∧
      context.store = cpu.store ∧ context.register .esp = low + 24#32 ∧
      context.register .eax = pcb ∧ context.cr3 = cpu.store.read (pcb + 8#32) ∧
      ∀ index target, [Register.ebp, .edi, .esi, .edx, .ecx, .ebx][index]? = some target →
        context.register target = cpu.store.read (low + BitVec.ofNat 32 (4 * index)) := by
  have eax : ((Instruction.exec cpu (.load .eax .esp 28)).test .eax).register .eax = pcb := by
    simpa [Instruction.exec, Cpu.test, Cpu.set] using argument
  generalize loaded : (Instruction.exec cpu (.load .eax .esp 28)).test .eax = start at eax
  have store : start.store = cpu.store := by
    rw [← loaded]
    rfl
  generalize switched : execute start [.load .edx .eax pageDirPhys, .writeCr3 .edx,
    .load .esp .eax kernelEsp] = stack
  have stackStore : stack.store = cpu.store := by
    rw [← switched, ← store]
    rfl
  have stackEsp : stack.register .esp = low := by
    simp [← switched, execute, Instruction.exec, Cpu.set, eax, store, saved, kernelEsp]
  have stackEax : stack.register .eax = pcb := by
    simp [← switched, execute, Instruction.exec, Cpu.set, eax]
  have stackCr3 : stack.cr3 = cpu.store.read (pcb + 8#32) := by
    simp [← switched, execute, Instruction.exec, Cpu.set, eax, store, pageDirPhys]
  have popped := @execute_pops stack [.ebp, .edi, .esi, .edx, .ecx, .ebx] (by decide) (by decide)
  refine ⟨execute stack ([Register.ebp, .edi, .esi, .edx, .ecx, .ebx].map .pop), ?_,
    popped.store.trans stackStore, ?_, ?_, popped.cr3.trans stackCr3, ?_⟩
  · rw [loadNew, loaded, eax, if_neg notNull, ← switched, ← execute_append, ← execute_append]
    rfl
  · rw [popped.esp, stackEsp]
    rfl
  · rw [popped.others .eax (by decide) (by decide), stackEax]
  · intro index target found
    rw [popped.popped index target found, stackStore, stackEsp]

theorem loadNew_resumes {pcb low : Word} (notNull : pcb ≠ 0)
    (argument : cpu.store.read (cpu.register .esp + 28#32) = pcb)
    (saved : cpu.store.read pcb = low) :
    ∃ resumed, loadNew cpu = some resumed ∧ Resumes cpu.store pcb low resumed := by
  obtain ⟨context, shape, store, esp, eax, cr3, words⟩ := loadNew_context notNull argument saved
  have down : low + 24#32 - 4#32 = low + 20#32 := by bv_omega
  have up : low + 20#32 + 4#32 = low + 24#32 := by bv_omega
  have further : low + 24#32 + 4#32 = low + 28#32 := by bv_omega
  have skipped : ∀ (store : Store) (value : Word),
      (store.write (low + 20#32) value).read (low + 24#32) = store.read (low + 24#32) :=
    fun _ _ => Store.read_write_offset (by omega) (by omega)
  have ebp := words 0 .ebp rfl
  have edi := words 1 .edi rfl
  have esi := words 2 .esi rfl
  have ebx := words 5 .ebx rfl
  refine ⟨_, shape, ?_⟩
  constructor
  · simpa [execute, Instruction.exec, Cpu.push, Cpu.pop, Cpu.set, Cpu.ret] using ebp
  · simpa [execute, Instruction.exec, Cpu.push, Cpu.pop, Cpu.set, Cpu.ret] using edi
  · simpa [execute, Instruction.exec, Cpu.push, Cpu.pop, Cpu.set, Cpu.ret] using esi
  · simpa [execute, Instruction.exec, Cpu.push, Cpu.pop, Cpu.set, Cpu.ret] using ebx
  · simp [execute, Instruction.exec, Cpu.push, Cpu.pop, Cpu.set, Cpu.ret, esp, down, up, further]
  · simp [execute, Instruction.exec, Cpu.push, Cpu.pop, Cpu.set, Cpu.ret, esp, store, down, up,
      skipped]
  · simpa [execute, Instruction.exec, Cpu.push, Cpu.pop, Cpu.set, Cpu.ret] using cr3
  · simp [execute, Instruction.exec, Cpu.push, Cpu.pop, Cpu.set, Cpu.ret, esp, eax, store, down,
      Store.read_write_same, eflags]

/-- The words that the routine has saved, and those above them that it left alone. -/
structure Saved (cpu : Cpu) (current frame : Word) (store : Store) : Prop where
  kernelEsp : store.read (current + 0#32) = frame + 4#32
  eflags : store.read (current + 4#32) = testFlags cpu.eflags current
  pageDirPhys : store.read (current + 8#32) = cpu.cr3
  ebp : store.read (frame + 4#32) = cpu.register .ebp
  edi : store.read (frame + 8#32) = cpu.register .edi
  esi : store.read (frame + 12#32) = cpu.register .esi
  ebx : store.read (frame + 24#32) = cpu.register .ebx
  returnAddress : store.read (frame + 28#32) = cpu.store.read (frame + 28#32)
  argument : store.read (frame + 32#32) = cpu.store.read (frame + 32#32)

theorem savedStore_saved (separate : Separate current frame) :
    Saved cpu current frame (savedStore cpu site current frame) := by
  constructor <;>
    simp (disch := omega) only [savedStore, Store.read_write_same, Store.read_write_offset,
      separate.read_frame, separate.read_pcb]

/-- The processor is back behind the call that `caller` made, with the
registers that a call preserves; `flags` are those that `pushfd` captured. -/
structure Returned (caller : Cpu) (flags : Word) (resumed : Cpu) : Prop where
  eip : resumed.eip = caller.store.read (caller.register .esp)
  esp : resumed.register .esp = caller.register .esp + 4
  ebx : resumed.register .ebx = caller.register .ebx
  esi : resumed.register .esi = caller.register .esi
  edi : resumed.register .edi = caller.register .edi
  ebp : resumed.register .ebp = caller.register .ebp
  cr3 : resumed.cr3 = caller.cr3
  eflags : resumed.eflags = flags

/-- The bytes that a saved context consists of are the same in two memories:
the three words of the control block, and the stack from the last register
pushed up to the return address. -/
structure Kept (pcb frame : Word) (store after : Store) : Prop where
  pcb : ∀ byte < 12, after (pcb + BitVec.ofNat 32 byte) = store (pcb + BitVec.ofNat 32 byte)
  stack : ∀ byte < 28, after (frame + 4#32 + BitVec.ofNat 32 byte) =
    store (frame + 4#32 + BitVec.ofNat 32 byte)

theorem resume_saved {caller later : Cpu} {pcb : Word} (notNull : pcb ≠ 0)
    (separate : Separate pcb frame) (top : caller.register .esp = frame + 28#32)
    (argument : later.store.read (later.register .esp + 28#32) = pcb)
    (kept : Kept pcb frame (savedStore caller site pcb frame) later.store) :
    ∃ resumed, loadNew later = some resumed ∧
      Returned caller (testFlags caller.eflags pcb) resumed := by
  have saved := @savedStore_saved caller site pcb frame separate
  have words : ∀ index, index + 4 ≤ 28 → later.store.read (frame + 4#32 + BitVec.ofNat 32 index) =
      (savedStore caller site pcb frame).read (frame + BitVec.ofNat 32 (4 + index)) := by
    intro index inside
    rw [Store.read_kept kept.stack inside, BitVec.add_assoc, ← BitVec.ofNat_add]
  have low : later.store.read pcb = frame + 4#32 := by
    have word := (Store.read_kept kept.pcb (show 0 + 4 ≤ 12 by omega)).trans saved.kernelEsp
    simpa using word
  obtain ⟨resumed, result, resumes⟩ := loadNew_resumes notNull argument low
  refine ⟨resumed, result, ?_⟩
  constructor
  · rw [resumes.eip, words 24 (by omega), saved.returnAddress, top]
  · rw [resumes.esp, top]
    bv_omega
  · rw [resumes.ebx, words 20 (by omega), saved.ebx]
  · rw [resumes.esi, words 8 (by omega), saved.esi]
  · rw [resumes.edi, words 4 (by omega), saved.edi]
  · have word := words 0 (by omega)
    rw [BitVec.add_zero] at word
    rw [resumes.ebp, word, saved.ebp]
  · rw [resumes.cr3, Store.read_kept kept.pcb (show 8 + 4 ≤ 12 by omega), saved.pageDirPhys]
  · rw [resumes.eflags, Store.read_kept kept.pcb (show 4 + 4 ≤ 12 by omega), saved.eflags]

/-- The argument of the call is where `.load_new` looks for it. -/
theorem atLoad_argument (notNull : current ≠ 0) (separate : Separate current frame)
    (top : cpu.register .esp = frame + 28#32) :
    (atLoad cpu site current).store.read ((atLoad cpu site current).register .esp + 28#32) =
      cpu.store.read (cpu.register .esp + 4) := by
  obtain ⟨esp, store⟩ := @atLoad_saved cpu site current frame notNull top
  have above : frame + 4#32 + 28#32 = frame + 32#32 := by bv_omega
  have argument : frame + 28#32 + 4 = frame + 32#32 := by bv_omega
  rw [esp, store, above, top, argument]
  exact (savedStore_saved separate).argument

/-- The routine writes nothing outside the stack frame and the control block. -/
theorem savedStore_other {position : Word}
    (frameApart : ∀ offset < 28, position ≠ frame + BitVec.ofNat 32 offset)
    (pcbApart : ∀ index < 12, position ≠ current + BitVec.ofNat 32 index) :
    savedStore cpu site current frame position = cpu.store position := by
  have inFrame : ∀ (store : Store) (value : Word) (offset : Nat), offset + 4 ≤ 28 →
      store.write (frame + BitVec.ofNat 32 offset) value position = store position := by
    intro store value offset inside
    apply Store.write_other
    intro byte small
    rw [BitVec.add_assoc, ← BitVec.ofNat_add]
    exact frameApart _ (by omega)
  have inPcb : ∀ (store : Store) (value : Word) (index : Nat), index + 4 ≤ 12 →
      store.write (current + BitVec.ofNat 32 index) value position = store position := by
    intro store value index inside
    apply Store.write_other
    intro byte small
    rw [BitVec.add_assoc, ← BitVec.ofNat_add]
    exact pcbApart _ (by omega)
  simp (disch := omega) only [savedStore, inFrame, inPcb]

end

/-- Saving and resuming: whoever switches back to the process whose control
block is `pcb` returns it to its own call, if nobody wrote to its saved
context; and so does the process itself. -/
theorem switch_round_trip (caller : Cpu) (site pcb : Word) (notNull : pcb ≠ 0)
    (separate : Separate pcb (caller.register .esp - 28)) :
    (∀ (later : Cpu) (laterSite current : Word), current ≠ 0 →
        Separate current (later.register .esp - 28) →
        later.store.read (later.register .esp + 4) = pcb →
        Kept pcb (caller.register .esp - 28) (atLoad caller site pcb).store
          (atLoad later laterSite current).store →
        ∃ resumed, switchProcess later laterSite current = some resumed ∧
          Returned caller (testFlags caller.eflags pcb) resumed) ∧
      (caller.store.read (caller.register .esp + 4) = pcb →
        ∃ resumed, switchProcess caller site pcb = some resumed ∧
          Returned caller (testFlags caller.eflags pcb) resumed) := by
  have frames : ∀ cpu : Cpu, cpu.register .esp = cpu.register .esp - 28 + 28#32 := by
    intro cpu
    bv_omega
  have resume : ∀ (later : Cpu) (laterSite current : Word), current ≠ 0 →
      Separate current (later.register .esp - 28) →
      later.store.read (later.register .esp + 4) = pcb →
      Kept pcb (caller.register .esp - 28) (atLoad caller site pcb).store
        (atLoad later laterSite current).store →
      ∃ resumed, switchProcess later laterSite current = some resumed ∧
        Returned caller (testFlags caller.eflags pcb) resumed := by
    intro later laterSite current running laterSeparate argument kept
    rw [(atLoad_saved notNull (frames caller)).2] at kept
    exact resume_saved notNull separate (frames caller)
      ((atLoad_argument running laterSeparate (frames later)).trans argument) kept
  refine ⟨resume, fun argument => ?_⟩
  exact resume caller site pcb notNull separate argument ⟨fun _ _ => rfl, fun _ _ => rfl⟩

/-- A processor with the given stack; the word at `0x5004` is `0x2000`. -/
def sampleCpu (esp : Word) : Cpu where
  register := Function.update (fun _ => 7) .esp esp
  eflags := 0x202
  cr3 := 0x8000
  eip := 0
  store := fun position => if position = 0x5005 then 0x20 else 0

theorem switch_round_trip_sample :
    ∃ resumed, switchProcess
        { sampleCpu 0x5000 with store := (atLoad (sampleCpu 0x1000) 0x100 0x2000).store }
        0x100 0x3000 = some resumed ∧
      resumed.register .esp = 0x1004 ∧ resumed.register .ebx = 7 := by
  have bound : ∀ index : Nat, index < 64 → (BitVec.ofNat 32 index).toNat = index := by
    intro index small
    rw [BitVec.toNat_ofNat]
    omega
  have apart : ∀ (base other : Word) (index offset : Nat), index < 64 → offset < 64 →
      base.toNat + 64 ≤ other.toNat → other.toNat + 64 < 2 ^ 32 →
      base + BitVec.ofNat 32 index ≠ other + BitVec.ofNat 32 offset := by
    intro base other index offset small few order room same
    have equal := congrArg BitVec.toNat same
    rw [BitVec.toNat_add, BitVec.toNat_add, bound index small, bound offset few] at equal
    omega
  have saved := (@atLoad_saved { sampleCpu 0x5000 with
    store := (atLoad (sampleCpu 0x1000) 0x100 0x2000).store } 0x100 0x3000 (0x5000 - 28)
      (by decide) (by simp [sampleCpu])).2
  have argument : (atLoad (sampleCpu 0x1000) 0x100 0x2000).store.read (0x5000 + 4) = 0x2000 := by
    decide +kernel
  obtain ⟨resumed, result, returned⟩ := (switch_round_trip (sampleCpu 0x1000) 0x100 0x2000
    (by decide) (fun index inside offset within => (apart _ _ _ _ (by omega) (by omega)
      (by decide) (by decide)).symm)).1
    { sampleCpu 0x5000 with store := (atLoad (sampleCpu 0x1000) 0x100 0x2000).store } 0x100 0x3000
    (by decide)
    (fun index inside offset within => apart _ _ _ _ (by omega) (by omega) (by decide) (by decide))
    argument
    (by
      rw [saved]
      constructor
      · intro byte small
        exact savedStore_other
          (fun offset within => apart _ _ _ _ (by omega) (by omega) (by decide) (by decide))
          (fun index inside => apart _ _ _ _ (by omega) (by omega) (by decide) (by decide))
      · intro byte small
        exact savedStore_other
          (fun offset within => apart _ _ _ _ (by omega) (by omega) (by decide) (by decide))
          (fun index inside => apart _ _ _ _ (by omega) (by omega) (by decide) (by decide)))
  exact ⟨resumed, result, returned.esp, returned.ebx⟩

end Helios.Switch
