import Helios.Switch.RoundTrip
import Helios.Scheduler.Context

namespace Helios.Switch

open Helios.Data
open Helios.Scheduler (Machine)

/-! The routine of `switch.asm` does to kernel stacks what
`Machine.switchProcess` says about contexts.

`owner` names the process on whose stack an address lies.  A context belongs to
the process whose stack its stack pointer is on. -/

section

variable {ι : Type} {pcb : ι → Word} {owner : Word → ι}

/-- The 36 bytes from `frame` on are on one stack and in no control block. -/
structure OnStack (pcb : ι → Word) (owner : Word → ι) (frame : Word) : Prop where
  owned : ∀ offset < 36, owner (frame + BitVec.ofNat 32 offset) = owner frame
  separate : ∀ process, Separate (pcb process) frame

/-- The control blocks have an address, and no byte in common. -/
structure Placed (pcb : ι → Word) : Prop where
  notNull : ∀ process, pcb process ≠ 0
  distinct : ∀ process other, process ≠ other → ∀ index < 12, ∀ offset < 12,
    pcb process + BitVec.ofNat 32 index ≠ pcb other + BitVec.ofNat 32 offset

/-- The processor and its memory hold the contexts of `machine`. -/
structure Holds (pcb : ι → Word) (owner : Word → ι) (machine : Machine ι) (cpu : Cpu) : Prop where
  onCpu : owner (cpu.register .esp) = machine.onCpu
  saved : ∀ process, owner (cpu.store.read (pcb process)) = machine.saved process
  resumable : ∀ process, OnStack pcb owner (cpu.store.read (pcb process) - 4)

theorem OnStack.owner_eq {frame address other : Word} (onStack : OnStack pcb owner frame)
    (offset distance : Nat) (inside : offset < 36) (within : distance < 36)
    (here : address = frame + BitVec.ofNat 32 offset)
    (there : other = frame + BitVec.ofNat 32 distance) : owner address = owner other := by
  rw [here, there, onStack.owned offset inside, onStack.owned distance within]

/-- The call of `switch_process` returns on the stack whose pointer is saved in
the control block; it writes one more word there. -/
theorem loadNew_store {cpu : Cpu} {next low : Word} (notNull : next ≠ 0)
    (argument : cpu.store.read (cpu.register .esp + 28#32) = next)
    (saved : cpu.store.read next = low) :
    ∃ resumed value, loadNew cpu = some resumed ∧ resumed.register .esp = low + 28#32 ∧
      resumed.store = cpu.store.write (low + 20#32) value := by
  obtain ⟨resumed, result, resumes⟩ := loadNew_resumes notNull argument saved
  obtain ⟨context, shape, store, esp, _⟩ := loadNew_context notNull argument saved
  have down : low + 24#32 - 4#32 = low + 20#32 := by bv_omega
  refine ⟨resumed, context.store.read (context.register .eax + eflags), result, resumes.esp, ?_⟩
  rw [result, Option.some.injEq] at shape
  rw [shape, ← store]
  simp [execute, Instruction.exec, Cpu.push, Cpu.pop, Cpu.set, Cpu.ret, esp, down]

/-- The control block of another process is not touched when a context is saved. -/
theorem Placed.savedStore_read {cpu : Cpu} {site frame : Word} {current process : ι}
    (placed : Placed pcb) (separate : Separate (pcb process) frame) (other : process ≠ current) :
    (savedStore cpu site (pcb current) frame).read (pcb process) = cpu.store.read (pcb process) := by
  have kept : ∀ byte < 12, savedStore cpu site (pcb current) frame
      (pcb process + BitVec.ofNat 32 byte) = cpu.store (pcb process + BitVec.ofNat 32 byte) := by
    intro byte small
    exact savedStore_other (fun offset within => separate byte small offset (by omega))
      (fun index inside => placed.distinct process current other byte small index inside)
  have word := Store.read_kept kept (show 0 + 4 ≤ 12 by omega)
  simpa using word

variable [DecidableEq ι] {machine : Machine ι} {cpu : Cpu} {site : Word} {current next : ι}

/-- What the control blocks hold when the context of the caller is saved. -/
theorem Holds.save {frame : Word} (holds : Holds pcb owner machine cpu) (placed : Placed pcb)
    (onStack : OnStack pcb owner frame) (top : cpu.register .esp = frame + 28#32) (site : Word)
    (current process : ι) :
    OnStack pcb owner ((atLoad cpu site (pcb current)).store.read (pcb process) - 4) ∧
      owner ((atLoad cpu site (pcb current)).store.read (pcb process)) =
        Function.update machine.saved current machine.onCpu process := by
  rw [(@atLoad_saved cpu site (pcb current) frame (placed.notNull current) top).2]
  by_cases same : process = current
  · subst same
    have word := (@savedStore_saved cpu site (pcb process) frame (onStack.separate process)).kernelEsp
    have low : frame + 4#32 - 4 = frame := by bv_omega
    rw [BitVec.add_zero] at word
    rw [word, low, Function.update_self, ← holds.onCpu]
    exact ⟨onStack, onStack.owner_eq 4 28 (by omega) (by omega) rfl top⟩
  · rw [placed.savedStore_read (onStack.separate process) same, Function.update_of_ne same]
    exact ⟨holds.resumable process, holds.saved process⟩

/-- `switch_process` refines `Machine.switchProcess`. -/
theorem Holds.switchProcess (holds : Holds pcb owner machine cpu) (placed : Placed pcb)
    (found : machine.queues.current = some current)
    (onStack : OnStack pcb owner (cpu.register .esp - 28))
    (argument : cpu.store.read (cpu.register .esp + 4) = pcb next) :
    ∃ resumed, switchProcess cpu site (pcb current) = some resumed ∧
      Holds pcb owner (machine.switchProcess next) resumed := by
  have top : cpu.register .esp = cpu.register .esp - 28 + 28#32 := by bv_omega
  have words := holds.save placed onStack top site current
  obtain ⟨resumed, value, result, esp, after⟩ := loadNew_store (placed.notNull next)
    ((atLoad_argument (placed.notNull current) (onStack.separate current) top).trans argument) rfl
  obtain ⟨lands, owned⟩ := words next
  generalize (atLoad cpu site (pcb current)).store.read (pcb next) = low at *
  have kept : ∀ process, resumed.store.read (pcb process) =
      (atLoad cpu site (pcb current)).store.read (pcb process) := by
    intro process
    have word := @Separate.read_pcb (pcb process) (low - 4)
      (atLoad cpu site (pcb current)).store value 0 24 (lands.separate process) (by omega)
      (by omega)
    have here : low - 4 + BitVec.ofNat 32 24 = low + 20#32 := by bv_omega
    rw [here, BitVec.add_zero] at word
    rw [after, word]
  refine ⟨resumed, result, ?_⟩
  constructor
  · have landed : owner (low + 28#32) = owner low :=
      lands.owner_eq 32 4 (by omega) (by omega) (by bv_omega) (by bv_omega)
    rw [esp, landed, owned, Machine.switchProcess, found]
  · intro process
    rw [kept, (words process).2, Machine.switchProcess, found]
  · intro process
    rw [kept]
    exact (words process).1

end

end Helios.Switch
