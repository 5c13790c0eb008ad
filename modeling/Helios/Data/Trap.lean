import Helios.Data.Cpu

namespace Helios.Data

/-! Interrupts on the processor of `Helios.Data.Cpu`, with its segment registers.

The processor stays at one privilege level, so an interrupt gate switches no
stack. -/

inductive Segment where
  | ds
  | es
  | fs
  | gs
deriving DecidableEq, Repr

structure Machine extends Cpu where
  cs : BitVec 16
  segment : Segment → BitVec 16

/-- Push a list of words; the first one ends on top. -/
def Cpu.pushAll (cpu : Cpu) : List Word → Cpu
  | [] => cpu
  | word :: below => (cpu.pushAll below).push word

/-- The flags that an interrupt gate clears: `TF`, `IF`, `NT`, `RF` and `VM`. -/
def gateFlags (eflags : Word) : Word := eflags &&& ~~~0x34300

/-- The flags after `add`: carry, parity, adjust, zero, sign and overflow. -/
def addFlags (eflags left right : Word) : Word :=
  let sum := left + right
  let carry : Word := if sum.toNat < left.toNat then 0x1 else 0
  let adjust : Word := if (left ^^^ right ^^^ sum).getLsbD 4 then 0x10 else 0
  let overflow : Word := if left.msb = right.msb ∧ sum.msb ≠ left.msb then 0x800 else 0
  testFlags eflags sum &&& ~~~0x10 ||| carry ||| adjust ||| overflow

namespace Machine

def push (machine : Machine) (word : Word) : Machine :=
  { machine with toCpu := machine.toCpu.push word }

def set (machine : Machine) (register : Register) (value : Word) : Machine :=
  { machine with toCpu := machine.toCpu.set register value }

/-- The word at a distance above the stack pointer. -/
def word (machine : Machine) (offset : Nat) : Word :=
  machine.store.read (machine.register .esp + BitVec.ofNat 32 offset)

/-- The processor takes an interrupt through an interrupt gate; some exceptions
have an error code. -/
def deliver (machine : Machine) (error : Option Word) (selector : BitVec 16) (entry : Word) :
    Machine :=
  let saved := ((machine.push machine.eflags).push (machine.cs.setWidth 32)).push machine.eip
  let saved := error.elim saved saved.push
  { saved with eflags := gateFlags machine.eflags, cs := selector, eip := entry }

def iret (machine : Machine) : Machine :=
  { machine.set .esp (machine.register .esp + 12) with
    eip := machine.word 0
    cs := (machine.word 4).setWidth 16
    eflags := machine.word 8 }

/-- `ret`. -/
def ret (machine : Machine) : Machine := { machine with toCpu := machine.toCpu.ret }

end Machine

/-- The instructions of an interrupt stub besides its call. -/
inductive StubInstruction where
  | pushImmediate (value : Word)
  | pusha
  | readSegment (source : Segment)
  | push (source : Register)
  | loadAx (value : BitVec 16)
  | writeSegment (target : Segment)
  | pop (target : Register)
  | popa
  | addEsp (value : Word)
deriving Repr

/-- `mov ax, value`. -/
def Machine.setAx (machine : Machine) (value : BitVec 16) : Machine :=
  machine.set .eax ((machine.register .eax).extractLsb' 16 16 ++ value)

def StubInstruction.exec (machine : Machine) : StubInstruction → Machine
  | .pushImmediate value => machine.push value
  | .pusha =>
      { machine with
        toCpu := machine.toCpu.pushAll
          ([.edi, .esi, .ebp, .esp, .ebx, .edx, .ecx, .eax].map machine.register) }
  | .readSegment source => machine.setAx (machine.segment source)
  | .push source => machine.push (machine.register source)
  | .loadAx value => machine.setAx value
  | .writeSegment target =>
      { machine with
        segment := Function.update machine.segment target ((machine.register .eax).setWidth 16) }
  | .pop target =>
      { machine with toCpu := machine.toCpu.pop.1.set target machine.toCpu.pop.2 }
  | .popa =>
      { machine with
        register := fun
          | .edi => machine.word 0
          | .esi => machine.word 4
          | .ebp => machine.word 8
          | .esp => machine.register .esp + 32
          | .ebx => machine.word 16
          | .edx => machine.word 20
          | .ecx => machine.word 24
          | .eax => machine.word 28 }
  | .addEsp value =>
      { machine.set .esp (machine.register .esp + value) with
        eflags := addFlags machine.eflags (machine.register .esp) value }

def Machine.execute (machine : Machine) (code : List StubInstruction) : Machine :=
  code.foldl StubInstruction.exec machine

section

variable {cpu : Cpu} {machine : Machine} {stack : List Word} {index : Nat} {value : Word}

theorem push_esp : (cpu.push value).register .esp = cpu.register .esp - 4 := by
  simp [Cpu.push, Cpu.set]

theorem ret_esp : machine.ret.register .esp = machine.register .esp + 4 := by
  simp [Machine.ret, Cpu.ret, Cpu.pop, Cpu.set]

/-- What a push leaves on the stack depends on the stack only. -/
theorem push_congr {other : Cpu} (store : other.store = cpu.store)
    (esp : other.register .esp = cpu.register .esp) :
    (other.push value).store = (cpu.push value).store ∧
      (other.push value).register .esp = (cpu.push value).register .esp := by
  rw [push_esp, push_esp, esp, Cpu.push, Cpu.push, store, esp]
  exact ⟨rfl, rfl⟩

theorem pushAll_esp :
    (cpu.pushAll stack).register .esp = cpu.register .esp - BitVec.ofNat 32 (4 * stack.length) := by
  induction stack with
  | nil => simp [Cpu.pushAll]
  | cons top below ih =>
      rw [Cpu.pushAll, push_esp, ih, List.length_cons, Nat.mul_succ, BitVec.ofNat_add]
      bv_omega

/-- The words of the stack, counted from its top. -/
theorem pushAll_read (short : 4 * stack.length < 2 ^ 16) (here : stack[index]? = some value) :
    (cpu.pushAll stack).store.read
      ((cpu.pushAll stack).register .esp + BitVec.ofNat 32 (4 * index)) = value := by
  induction stack generalizing index with
  | nil => cases here
  | cons top below ih =>
      rw [List.length_cons] at short
      rw [Cpu.pushAll, push_esp]
      cases index with
      | zero =>
          have same : top = value := by simpa using here
          rw [Nat.mul_zero, BitVec.ofNat_eq_ofNat, BitVec.add_zero, ← same]
          exact Store.read_write_same
      | succ index =>
          have inside : index < below.length := Nat.lt_of_succ_lt_succ (List.getElem?_eq_some_iff.mp here).1
          have earlier := @ih index (by omega) (by simpa using here)
          have shifted : (cpu.pushAll below).register .esp + BitVec.ofNat 32 (4 * index) =
              (cpu.pushAll below).register .esp - 4 + BitVec.ofNat 32 (4 * (index + 1)) := by
            rw [Nat.mul_succ, BitVec.ofNat_add]
            bv_omega
          have kept := @Store.read_write_offset (cpu.pushAll below).store top
            ((cpu.pushAll below).register .esp - 4) 0 (4 * (index + 1)) (.inl (by omega)) (by omega)
          rw [BitVec.ofNat_eq_ofNat, BitVec.add_zero] at kept
          rw [shifted] at earlier
          exact kept.trans earlier

/-- Pushing changes no byte outside the words pushed. -/
theorem pushAll_other {position : Word}
    (outside : ∀ byte < 4 * stack.length,
      position ≠ (cpu.pushAll stack).register .esp + BitVec.ofNat 32 byte) :
    (cpu.pushAll stack).store position = cpu.store position := by
  induction stack with
  | nil => rfl
  | cons top below ih =>
      rw [List.length_cons, Cpu.pushAll, push_esp] at outside
      have written : (cpu.pushAll (top :: below)).store position =
          (cpu.pushAll below).store position :=
        Store.write_other fun byte small => outside byte (by omega)
      rw [written]
      refine ih fun byte small same => ?_
      have above := outside (4 + byte) (by omega)
      rw [BitVec.ofNat_add] at above
      exact above (by rw [same]; bv_omega)

end

end Helios.Data
