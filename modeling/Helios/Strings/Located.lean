import Helios.Data.Memory
import Helios.Strings.Model

namespace Helios.Strings

open Helios.Data

/-! Strings at an address of the memory. -/

/-- `strcmp` on a string in memory. -/
def strcmpAt (memory : Memory) (address : Nat) : List UInt8 → Int
  | [] => (memory address).toNat
  | byte :: rest =>
      if memory address ≠ 0 ∧ memory address = byte then strcmpAt memory (u32 (address + 1)) rest
      else ((memory address).toNat : Int) - byte.toNat

/-- The bytes that `strlen` counts.  A string that does not end within the
given number of bytes has none. -/
def textAt (memory : Memory) : Nat → Nat → Option (List UInt8)
  | 0, _ => none
  | fuel + 1, address =>
      if memory address = 0 then some []
      else (textAt memory fuel (u32 (address + 1))).map (memory address :: ·)

/-- `strncpy`, with the zeros that it adds. -/
def strncpyAt (memory : Memory) (dest : Nat) (source : CString) (count : Nat) : Memory :=
  fun position =>
    if dest ≤ position ∧ position < dest + count then source.val.getD (position - dest) 0
    else memory position

def strcpyAt (memory : Memory) (dest : Nat) (source : CString) : Memory :=
  strncpyAt memory dest source (source.val.length + 1)

/-- A field of `length` bytes with a string in it. -/
def FieldAt (memory : Memory) (address length : Nat) (text : CString) : Prop :=
  ∀ index < length, memory (address + index) = text.val.getD index 0

section

variable {memory after : Memory} {address dest length count fuel : Nat} {text : List UInt8}
variable {source : CString}

theorem strcmpAt_eq (ended : (0 : UInt8) ∉ text)
    (bytes : ∀ index ≤ text.length, memory (address + index) = text.getD index 0)
    (inside : address + text.length < 4294967296) (other : List UInt8) :
    strcmpAt memory address other = strcmp text other := by
  induction text generalizing address other with
  | nil =>
      have last : memory address = 0 := bytes 0 le_rfl
      cases other with
      | nil => simp [strcmpAt, strcmp, last]
      | cons byte rest => simp [strcmpAt, strcmp, last]
  | cons first tail ih =>
      rw [List.length_cons] at bytes inside
      have here : memory address = first := bytes 0 (Nat.zero_le _)
      have nonzero : first ≠ 0 := fun same => ended (by simp [same])
      have next : u32 (address + 1) = address + 1 := u32_of_lt (by omega)
      have later : ∀ index ≤ tail.length, memory (address + 1 + index) = tail.getD index 0 := by
        intro index within
        rw [Nat.add_assoc, Nat.add_comm 1, bytes (index + 1) (by omega), List.getD_cons_succ]
      have rest := @ih (address + 1) (fun member => ended (List.mem_cons_of_mem _ member)) later
        (by omega)
      cases other with
      | nil => simp [strcmpAt, strcmp, here]
      | cons byte others => simp [strcmpAt, strcmp, here, next, nonzero, rest]

theorem textAt_eq (ended : (0 : UInt8) ∉ text)
    (bytes : ∀ index ≤ text.length, memory (address + index) = text.getD index 0)
    (inside : address + text.length < 4294967296) (enough : text.length < fuel) :
    textAt memory fuel address = some text := by
  induction text generalizing address fuel with
  | nil =>
      have last : memory address = 0 := bytes 0 le_rfl
      cases fuel with
      | zero => cases enough
      | succ fuel => rw [textAt, if_pos last]
  | cons first tail ih =>
      rw [List.length_cons] at bytes inside enough
      have here : memory address = first := bytes 0 (Nat.zero_le _)
      have nonzero : first ≠ 0 := fun same => ended (by simp [same])
      have later : ∀ index ≤ tail.length, memory (address + 1 + index) = tail.getD index 0 := by
        intro index within
        rw [Nat.add_assoc, Nat.add_comm 1, bytes (index + 1) (by omega), List.getD_cons_succ]
      cases fuel with
      | zero => cases enough
      | succ fuel =>
          rw [textAt, here, if_neg nonzero, u32_of_lt (by omega),
            ih (fun member => ended (List.mem_cons_of_mem _ member)) later (by omega) (by omega)]
          rfl

theorem strncpyAt_other {position : Nat} (outside : position < dest ∨ dest + count ≤ position) :
    strncpyAt memory dest source count position = memory position :=
  if_neg (by omega)

theorem strncpyAt_confined : Memory.Confined dest (dest + count) memory
    (strncpyAt memory dest source count) :=
  fun _ outside => strncpyAt_other outside

theorem load32_strncpyAt (apart : dest + count ≤ address ∨ address + 4 ≤ dest) :
    (strncpyAt memory dest source count).load32 address = memory.load32 address :=
  Memory.load32_congr fun position lower upper => strncpyAt_other (by omega)

theorem FieldAt.congr (field : FieldAt memory address length source)
    (agree : ∀ position, address ≤ position → position < address + length →
      after position = memory position) : FieldAt after address length source :=
  fun index inside => (agree _ (Nat.le_add_right _ _) (by omega)).trans (field index inside)

/-- A field that was zeroed holds what is copied to it. -/
theorem strncpyAt_field (zeroed : ∀ index < length, memory (dest + index) = 0) :
    FieldAt (strncpyAt memory dest source count) dest length (strncpy source count) := by
  intro index inside
  rw [strncpyAt, strncpy]
  by_cases copied : index < count
  · rw [if_pos ⟨Nat.le_add_right _ _, by omega⟩, Nat.add_sub_cancel_left]
    simp only [List.getD_eq_getElem?_getD, List.getElem?_take_of_lt copied]
  · rw [if_neg (by omega), zeroed index inside]
    have beyond : (source.val.take count).length ≤ index := by
      rw [List.length_take]
      omega
    rw [List.getD_eq_getElem?_getD, List.getElem?_eq_none beyond, Option.getD_none]

theorem FieldAt.strcmpAt (field : FieldAt memory address length source)
    (short : source.val.length < length) (inside : address + length ≤ 4294967296)
    (other : List UInt8) : strcmpAt memory address other = strcmp source.val other :=
  strcmpAt_eq source.property (fun index within => field index (by omega)) (by omega) other

theorem FieldAt.textAt (field : FieldAt memory address length source)
    (short : source.val.length < length) (inside : address + length ≤ 4294967296) :
    textAt memory 4294967296 address = some source.val :=
  textAt_eq source.property (fun index within => field index (by omega)) (by omega) (by omega)

end

end Helios.Strings
