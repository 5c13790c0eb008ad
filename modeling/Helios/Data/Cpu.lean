import Mathlib.Tactic

namespace Helios.Data

/-! A 32-bit processor with a stack in flat memory.

Words and addresses are bit vectors, so stack pointers and byte addresses wrap
as they do on the machine.  A word access is described by the bytes it touches;
the frame lemmas ask that the bytes of two accesses differ.
-/

abbrev Word := BitVec 32

abbrev Store := Word → BitVec 8

namespace Store

variable {store : Store} {address other value base : Word}

def read (store : Store) (address : Word) : Word :=
  store (address + 3) ++ store (address + 2) ++ store (address + 1) ++ store address

def write (store : Store) (address value : Word) : Store := fun position =>
  if position = address then value.extractLsb' 0 8
  else if position = address + 1 then value.extractLsb' 8 8
  else if position = address + 2 then value.extractLsb' 16 8
  else if position = address + 3 then value.extractLsb' 24 8
  else store position

/-- Two words have no byte in common. -/
def Apart (address other : Word) : Prop :=
  ∀ left ∈ [0, 1, 2, 3], ∀ right ∈ [0, 1, 2, 3], address + left ≠ other + right

theorem read_congr {after : Store}
    (agree : ∀ index ∈ [0, 1, 2, 3], after (address + index) = store (address + index)) :
    after.read address = store.read address := by
  have first := agree 0 (by simp)
  simp only [BitVec.ofNat_eq_ofNat, BitVec.add_zero] at first
  rw [read, read, first, agree 1 (by simp), agree 2 (by simp), agree 3 (by simp)]

theorem write_other {position : Word}
    (outside : ∀ byte < 4, position ≠ address + BitVec.ofNat 32 byte) :
    store.write address value position = store position := by
  have zero := outside 0 (by omega)
  have one := outside 1 (by omega)
  have two := outside 2 (by omega)
  have three := outside 3 (by omega)
  rw [BitVec.add_zero] at zero
  simp only [write, zero, if_false, BitVec.ofNat_eq_ofNat, one, two, three]

theorem read_write_same : (store.write address value).read address = value := by
  have one : address + 1 ≠ address := by bv_omega
  have two : address + 2 ≠ address ∧ address + 2 ≠ address + 1 := by constructor <;> bv_omega
  have three : address + 3 ≠ address ∧ address + 3 ≠ address + 1 ∧ address + 3 ≠ address + 2 := by
    refine ⟨?_, ?_, ?_⟩ <;> bv_omega
  simp only [read, write, one, two, three, if_true, if_false]
  apply BitVec.eq_of_getLsbD_eq
  intro index small
  simp only [BitVec.getLsbD_append, BitVec.getLsbD_extractLsb']
  grind

theorem read_write_apart (apart : Apart address other) :
    (store.write address value).read other = store.read other := by
  apply read_congr
  intro index member
  have zero := apart 0 (by simp) index member
  have one := apart 1 (by simp) index member
  have two := apart 2 (by simp) index member
  have three := apart 3 (by simp) index member
  simp only [BitVec.ofNat_eq_ofNat, BitVec.add_zero] at zero
  simp only [write, Ne.symm zero, Ne.symm one, Ne.symm two, Ne.symm three, if_false]

theorem Apart.symm (apart : Apart address other) : Apart other address :=
  fun left leftMember right rightMember same => apart right rightMember left leftMember same.symm

theorem offset_byte (base : Word) (start : Nat) {byte : Word} (member : byte ∈ [0, 1, 2, 3]) :
    ∃ more < 4, base + BitVec.ofNat 32 start + byte = base + BitVec.ofNat 32 (start + more) := by
  refine ⟨byte.toNat, ?_, ?_⟩
  · simp only [List.mem_cons, List.not_mem_nil, or_false] at member
    rcases member with rfl | rfl | rfl | rfl <;> decide
  · rw [BitVec.ofNat_add, BitVec.ofNat_toNat, BitVec.setWidth_eq, BitVec.add_assoc]

theorem read_write_offset {near far : Nat} (apart : near + 4 ≤ far ∨ far + 4 ≤ near)
    (small : near < 2 ^ 16 ∧ far < 2 ^ 16) :
    (store.write (base + BitVec.ofNat 32 near) value).read (base + BitVec.ofNat 32 far) =
      store.read (base + BitVec.ofNat 32 far) := by
  apply read_write_apart
  intro left leftMember right rightMember same
  obtain ⟨more, few, leftEq⟩ := offset_byte base near leftMember
  obtain ⟨further, less, rightEq⟩ := offset_byte base far rightMember
  rw [leftEq, rightEq, BitVec.add_right_inj] at same
  have equal := congrArg BitVec.toNat same
  simp only [BitVec.toNat_ofNat] at equal
  omega

/-- Memory that agrees on a range of bytes agrees on the words in it. -/
theorem read_kept {after : Store} {count index : Nat}
    (kept : ∀ byte < count, after (base + BitVec.ofNat 32 byte) = store (base + BitVec.ofNat 32 byte))
    (inside : index + 4 ≤ count) :
    after.read (base + BitVec.ofNat 32 index) = store.read (base + BitVec.ofNat 32 index) := by
  apply read_congr
  intro byte member
  obtain ⟨more, few, same⟩ := offset_byte base index member
  rw [same]
  exact kept _ (by omega)

end Store

inductive Register where
  | eax
  | ebx
  | ecx
  | edx
  | esi
  | edi
  | ebp
  | esp
deriving DecidableEq, Repr

structure Cpu where
  register : Register → Word
  eflags : Word
  cr3 : Word
  eip : Word
  store : Store

namespace Cpu

def set (cpu : Cpu) (register : Register) (value : Word) : Cpu :=
  { cpu with register := Function.update cpu.register register value }

def push (cpu : Cpu) (value : Word) : Cpu :=
  let esp := cpu.register .esp - 4
  { cpu.set .esp esp with store := cpu.store.write esp value }

/-- The word on top of the stack, and the processor without it. -/
def pop (cpu : Cpu) : Cpu × Word :=
  (cpu.set .esp (cpu.register .esp + 4), cpu.store.read (cpu.register .esp))

end Cpu

/-- Instructions without a jump; an operand in memory is a register and a
displacement. -/
inductive Instruction where
  | push (source : Register)
  | pop (target : Register)
  | pushMemory (base : Register) (offset : Word)
  | popMemory (base : Register) (offset : Word)
  | load (target base : Register) (offset : Word)
  | store (base : Register) (offset : Word) (source : Register)
  | pushfd
  | popfd
  | readCr3 (target : Register)
  | writeCr3 (source : Register)
deriving Repr

def Instruction.exec (cpu : Cpu) : Instruction → Cpu
  | .push source => cpu.push (cpu.register source)
  | .pop target => cpu.pop.1.set target cpu.pop.2
  | .pushMemory base offset => cpu.push (cpu.store.read (cpu.register base + offset))
  | .popMemory base offset =>
      { cpu.pop.1 with store := cpu.store.write (cpu.pop.1.register base + offset) cpu.pop.2 }
  | .load target base offset => cpu.set target (cpu.store.read (cpu.register base + offset))
  | .store base offset source =>
      { cpu with store := cpu.store.write (cpu.register base + offset) (cpu.register source) }
  | .pushfd => cpu.push cpu.eflags
  | .popfd => { cpu.pop.1 with eflags := cpu.pop.2 }
  | .readCr3 target => cpu.set target cpu.cr3
  | .writeCr3 source => { cpu with cr3 := cpu.register source }

def execute (cpu : Cpu) (code : List Instruction) : Cpu := code.foldl Instruction.exec cpu

/-- The processor after a row of `pop` instructions. -/
structure Popped (cpu : Cpu) (targets : List Register) (after : Cpu) : Prop where
  store : after.store = cpu.store
  eflags : after.eflags = cpu.eflags
  cr3 : after.cr3 = cpu.cr3
  esp : after.register .esp = cpu.register .esp + BitVec.ofNat 32 (4 * targets.length)
  popped : ∀ index target, targets[index]? = some target →
    after.register target = cpu.store.read (cpu.register .esp + BitVec.ofNat 32 (4 * index))
  others : ∀ register, register ≠ .esp → register ∉ targets →
    after.register register = cpu.register register

theorem execute_pops {cpu : Cpu} {targets : List Register} (distinct : targets.Nodup)
    (stack : .esp ∉ targets) : Popped cpu targets (execute cpu (targets.map .pop)) := by
  induction targets generalizing cpu with
  | nil => exact ⟨rfl, rfl, rfl, by simp [execute], by simp, fun _ _ _ => rfl⟩
  | cons target rest ih =>
      obtain ⟨fresh, distinct⟩ := List.nodup_cons.mp distinct
      have notStack : Register.esp ≠ target := fun same => stack (by simp [same])
      have moved : (Instruction.exec cpu (.pop target)).register .esp = cpu.register .esp + 4#32 := by
        simp [Instruction.exec, Cpu.pop, Cpu.set, notStack]
      have after := @ih (Instruction.exec cpu (.pop target)) distinct (fun member => stack (by simp [member]))
      have further : ∀ count, cpu.register .esp + 4#32 + BitVec.ofNat 32 (4 * count) =
          cpu.register .esp + BitVec.ofNat 32 (4 * (count + 1)) := by
        intro count
        rw [BitVec.add_assoc, ← BitVec.ofNat_add]
        congr 2
        omega
      refine ⟨after.store, after.eflags, after.cr3, ?_, ?_, ?_⟩
      · rw [List.map_cons, execute, List.foldl_cons]
        exact after.esp.trans (by rw [moved, further, List.length_cons])
      · intro index register found
        rw [List.map_cons, execute, List.foldl_cons]
        cases index with
        | zero =>
            have same : target = register := by simpa using found
            subst same
            have kept := after.others target (Ne.symm notStack) fresh
            rw [execute] at kept
            rw [kept]
            simp [Instruction.exec, Cpu.pop, Cpu.set]
        | succ index =>
            have later := after.popped index register (by simpa using found)
            rw [moved, further] at later
            exact later
      · intro register notEsp outside
        rw [List.map_cons, execute, List.foldl_cons]
        have kept := after.others register notEsp (fun member => outside (by simp [member]))
        refine kept.trans ?_
        have notTarget : register ≠ target := fun same => outside (by simp [same])
        simp [Instruction.exec, Cpu.pop, Cpu.set, notTarget, notEsp]

theorem execute_append {cpu : Cpu} {code more : List Instruction} :
    execute cpu (code ++ more) = execute (execute cpu code) more := List.foldl_append

/-- `ret`. -/
def Cpu.ret (cpu : Cpu) : Cpu := { cpu.pop.1 with eip := cpu.pop.2 }

/-- The flags after `test` of a register with itself: carry and overflow are
clear, and parity, zero and sign are those of the value. -/
def testFlags (eflags value : Word) : Word :=
  let parity : Word := if (List.range 8).countP (value.getLsbD ·) % 2 = 0 then 0x4 else 0
  let zero : Word := if value = 0 then 0x40 else 0
  let sign : Word := if value.msb then 0x80 else 0
  eflags &&& ~~~0x8C5 ||| parity ||| zero ||| sign

/-- `test register, register`. -/
def Cpu.test (cpu : Cpu) (register : Register) : Cpu :=
  { cpu with eflags := testFlags cpu.eflags (cpu.register register) }

end Helios.Data
