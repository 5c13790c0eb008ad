import Helios.Data.Trap

namespace Helios.Interrupt

open Helios.Data

/-! The interrupt stubs of `isr.asm`. -/

/-- An instance of one of the three macros. -/
inductive Stub where
  | isrNoErr (vector : Nat)
  | isrErr (vector : Nat)
  | irq (line vector : Nat)
deriving DecidableEq, Repr

/-- The instructions of the macro up to its jump. -/
def Stub.code : Stub → List StubInstruction
  | .isrNoErr vector => [.pushImmediate 0, .pushImmediate (BitVec.ofNat 32 vector)]
  | .isrErr vector => [.pushImmediate (BitVec.ofNat 32 vector)]
  | .irq _ vector => [.pushImmediate 0, .pushImmediate (BitVec.ofNat 32 vector)]

/-- The stub written for a vector. -/
def stub (vector : Nat) : Option Stub :=
  if vector ∈ [8, 10, 11, 12, 13, 14] then some (.isrErr vector)
  else if vector < 32 then some (.isrNoErr vector)
  else if vector < 48 then some (.irq (vector - 32) vector)
  else none

/-- `common_isr` and `common_irq` up to their calls. -/
def commonEntry : List StubInstruction :=
  [.pusha, .readSegment .ds, .push .eax,
    .loadAx 0x10, .writeSegment .ds, .writeSegment .es, .writeSegment .fs, .writeSegment .gs]

/-- `common_isr` and `common_irq` from their calls to `iret`. -/
def commonExit : List StubInstruction :=
  [.pop .eax, .writeSegment .ds, .writeSegment .es, .writeSegment .fs, .writeSegment .gs,
    .popa, .addEsp 8]

/-- The code around a stub: the gate that leads to it, the address behind its
call, and that of the function called. -/
structure Linkage where
  selector : BitVec 16
  entry : Word
  site : Word
  handler : Word

/-- From the interrupted instruction to the first one of the handler. -/
def enter (linkage : Linkage) (stub : Stub) (error : Option Word) (machine : Machine) : Machine :=
  let machine := machine.deliver error linkage.selector linkage.entry
  let machine := (machine.execute (stub.code ++ commonEntry)).push linkage.site
  { machine with eip := linkage.handler }

/-- From the return of the handler to the instruction behind `iret`. -/
def leave (machine : Machine) : Machine := (machine.execute commonExit).iret

/-- The words a macro pushes, the last one first. -/
def Stub.pushed : Stub → List Word
  | .isrNoErr vector => [BitVec.ofNat 32 vector, 0]
  | .isrErr vector => [BitVec.ofNat 32 vector]
  | .irq _ vector => [BitVec.ofNat 32 vector, 0]

/-- What is on the stack before `pusha`, from its top on. -/
def pushedBefore (stub : Stub) (error : Option Word) (machine : Machine) : List Word :=
  stub.pushed ++ error.toList ++ [machine.eip, machine.cs.setWidth 32, machine.eflags]

/-- What is on the stack at the call, from its top to where it was when the
interrupt came. -/
def frame (stub : Stub) (error : Option Word) (machine : Machine) : List Word :=
  let before := machine.toCpu.pushAll (pushedBefore stub error machine)
  [(machine.register .eax).extractLsb' 16 16 ++ machine.segment .ds,
    machine.register .edi, machine.register .esi, machine.register .ebp, before.register .esp,
    machine.register .ebx, machine.register .edx, machine.register .ecx, machine.register .eax] ++
    pushedBefore stub error machine

/-- Nothing has happened but that words have been pushed; the processor state
besides the registers and the stack is left open. -/
structure Pushed (machine : Machine) (stack : List Word) (after : Machine) : Prop where
  store : after.store = (machine.toCpu.pushAll stack).store
  esp : after.register .esp = (machine.toCpu.pushAll stack).register .esp
  others : ∀ register, register ≠ .esp → after.register register = machine.register register
  segment : after.segment = machine.segment

section

variable {machine after : Machine} {linkage : Linkage} {shape : Stub} {error : Option Word}
variable {stack : List Word} {value : Word}

theorem Pushed.push (pushed : Pushed machine stack after) :
    Pushed machine (value :: stack) (after.push value) where
  store := by
    show after.store.write (after.register .esp - 4) value = _
    rw [pushed.store, pushed.esp]
    rfl
  esp := by
    show (after.toCpu.push value).register .esp = _
    rw [push_esp, pushed.esp, Cpu.pushAll, push_esp]
  others register different := by
    refine Eq.trans ?_ (pushed.others register different)
    exact Function.update_of_ne different _ _
  segment := pushed.segment

theorem deliver_pushed (selector : BitVec 16) (entry : Word) :
    Pushed machine (error.toList ++ [machine.eip, machine.cs.setWidth 32, machine.eflags])
      (machine.deliver error selector entry) := by
  have start : Pushed machine [] machine := ⟨rfl, rfl, fun _ _ => rfl, rfl⟩
  have saved : Pushed machine [machine.eip, machine.cs.setWidth 32, machine.eflags]
      (((machine.push machine.eflags).push (machine.cs.setWidth 32)).push machine.eip) :=
    start.push.push.push
  cases error with
  | none => exact ⟨saved.store, saved.esp, saved.others, saved.segment⟩
  | some code =>
      have coded := @Pushed.push _ _ _ code saved
      exact ⟨coded.store, coded.esp, coded.others, coded.segment⟩

theorem macro_pushed (selector : BitVec 16) (entry : Word) :
    Pushed machine (pushedBefore shape error machine)
      ((machine.deliver error selector entry).execute shape.code) := by
  have delivered := @deliver_pushed machine error selector entry
  cases shape with
  | isrNoErr vector => exact delivered.push.push
  | isrErr vector => exact delivered.push
  | irq line vector => exact delivered.push.push

theorem Pushed.pushAll (pushed : Pushed machine stack after) (words : List Word) :
    Pushed machine (words ++ stack) { after with toCpu := after.toCpu.pushAll words } := by
  induction words with
  | nil => exact pushed
  | cons word words ih => exact ih.push

theorem pusha_pushed (pushed : Pushed machine stack after) :
    Pushed machine
      (([.edi, .esi, .ebp].map machine.register) ++ (machine.toCpu.pushAll stack).register .esp ::
        ([.ebx, .edx, .ecx, .eax].map machine.register) ++ stack)
      (StubInstruction.exec after .pusha) := by
  have saved := pushed.pushAll ([.edi, .esi, .ebp, .esp, .ebx, .edx, .ecx, .eax].map after.register)
  have others := pushed.others
  simp only [List.map_cons, List.map_nil, pushed.esp, others .edi (by decide),
    others .esi (by decide), others .ebp (by decide), others .ebx (by decide),
    others .edx (by decide), others .ecx (by decide), others .eax (by decide)] at saved
  simpa [StubInstruction.exec, pushed.esp, others] using saved

/-- `common_isr` and `common_irq` push the general registers and the data
segment, and load the data segment of the kernel. -/
theorem commonEntry_stack {start : Machine} :
    (start.execute commonEntry).store =
        ((StubInstruction.exec start .pusha).toCpu.push
          ((start.register .eax).extractLsb' 16 16 ++ start.segment .ds)).store ∧
      (start.execute commonEntry).register .esp =
        ((StubInstruction.exec start .pusha).toCpu.push
          ((start.register .eax).extractLsb' 16 16 ++ start.segment .ds)).register .esp := by
  constructor <;> rfl

/-- The stack at the first instruction of the handler: the frame below the
return address. -/
theorem enter_stack : (enter linkage shape error machine).store =
      (machine.toCpu.pushAll (linkage.site :: frame shape error machine)).store ∧
    (enter linkage shape error machine).register .esp =
      (machine.toCpu.pushAll (linkage.site :: frame shape error machine)).register .esp := by
  have before := @macro_pushed machine shape error linkage.selector linkage.entry
  have split : (machine.deliver error linkage.selector linkage.entry).execute
      (shape.code ++ commonEntry) =
      ((machine.deliver error linkage.selector linkage.entry).execute shape.code).execute
        commonEntry := List.foldl_append
  obtain ⟨store, esp⟩ := @commonEntry_stack
    ((machine.deliver error linkage.selector linkage.entry).execute shape.code)
  rw [before.others .eax (by decide), before.segment] at store esp
  have saved := @Pushed.push _ _ _
    ((machine.register .eax).extractLsb' 16 16 ++ machine.segment .ds) (pusha_pushed before)
  rw [enter, split]
  generalize ((machine.deliver error linkage.selector linkage.entry).execute shape.code).execute
    commonEntry = inside at store esp
  have called := @push_congr (machine.toCpu.pushAll (frame shape error machine)) linkage.site
    inside.toCpu (store.trans saved.store) (esp.trans saved.esp)
  exact called

/-- Where each register is loaded from, counted from the frame. -/
def slot : Register → Nat
  | .edi => 4
  | .esi => 8
  | .ebp => 12
  | .ebx => 20
  | .edx => 24
  | .ecx => 28
  | .eax => 32
  | .esp => 16

/-- The way back, with the stack pointer at the frame. -/
theorem leave_eq : leave machine =
    { machine with
      register := fun register => if register = .esp then machine.register .esp + 56
        else machine.word (slot register)
      eip := machine.word 44
      cs := (machine.word 48).setWidth 16
      eflags := machine.word 52
      segment := fun _ => (machine.word 0).setWidth 16 } := by
  have further : ∀ near far : Word, machine.register .esp + near + far =
      machine.register .esp + (near + far) := fun near far => BitVec.add_assoc _ _ _
  have registers : (leave machine).register = fun register =>
      if register = .esp then machine.register .esp + 56 else machine.word (slot register) := by
    funext register
    cases register <;>
      simp [leave, Machine.execute, commonExit, StubInstruction.exec, Machine.iret,
        Machine.word, Machine.set, Cpu.set, Cpu.pop, slot, further]
  have segments : (leave machine).segment = fun _ => (machine.word 0).setWidth 16 := by
    funext segment
    cases segment <;>
      simp [leave, Machine.execute, commonExit, StubInstruction.exec, Machine.iret,
        Machine.word, Machine.set, Cpu.set, Cpu.pop]
  rw [← registers, ← segments]
  simp [leave, Machine.execute, commonExit, StubInstruction.exec, Machine.iret, Machine.word,
    Machine.set, Cpu.set, Cpu.pop, further]

end

end Helios.Interrupt
