import Mathlib.Tactic

namespace Helios.Data

/-! Byte-addressed memory with little-endian 32-bit words.

Addresses are natural numbers; clients keep them below `2 ^ 32` themselves.
The lemmas are the ones a program proof needs: what a word load sees after a
store at the same word, and that a store elsewhere is invisible.
-/

/-- Reduction of a machine word to 32 bits. -/
def u32 (value : Nat) : Nat := value % 4294967296

/-- Difference of two machine words, modulo `2 ^ 32`. -/
def sub32 (left right : Nat) : Nat := (left + 4294967296 - right) % 4294967296

theorem u32_lt (value : Nat) : u32 value < 4294967296 :=
  Nat.mod_lt _ (by decide)

theorem u32_of_lt {value : Nat} (small : value < 4294967296) : u32 value = value :=
  Nat.mod_eq_of_lt small

theorem sub32_of_le {left right : Nat} (small : left < 4294967296) (ordered : right ≤ left) :
    sub32 left right = left - right := by
  unfold sub32
  omega

theorem and_highMask {value high low : Nat} (small : value < 2 ^ (high + low)) :
    value &&& (2 ^ high - 1) * 2 ^ low = value / 2 ^ low * 2 ^ low := by
  have short : value / 2 ^ low < 2 ^ high := by
    rw [Nat.div_lt_iff_lt_mul (by positivity), ← pow_add]
    exact small
  rw [← Nat.mod_eq_of_lt short, ← Nat.and_two_pow_sub_one_eq_mod, ← Nat.shiftLeft_eq,
    ← Nat.shiftLeft_eq, ← Nat.shiftRight_eq_div_pow]
  apply Nat.eq_of_testBit_eq
  intro index
  simp only [Nat.testBit_and, Nat.testBit_shiftLeft, Nat.testBit_shiftRight]
  by_cases above : low ≤ index
  · simp [above]
  · simp [above]

abbrev Memory := Nat → UInt8

namespace Memory

variable {memory : Memory} {address other value : Nat} {byte : UInt8}

def store8 (memory : Memory) (address : Nat) (byte : UInt8) : Memory :=
  fun position => if position = address then byte else memory position

def load32 (memory : Memory) (address : Nat) : Nat :=
  (memory address).toNat + (memory (address + 1)).toNat * 256 +
    (memory (address + 2)).toNat * 65536 + (memory (address + 3)).toNat * 16777216

def store32 (memory : Memory) (address value : Nat) : Memory :=
  fun position =>
    if position = address then UInt8.ofNat value
    else if position = address + 1 then UInt8.ofNat (value / 256)
    else if position = address + 2 then UInt8.ofNat (value / 65536)
    else if position = address + 3 then UInt8.ofNat (value / 16777216)
    else memory position

def load16 (memory : Memory) (address : Nat) : Nat :=
  (memory address).toNat + (memory (address + 1)).toNat * 256

def store16 (memory : Memory) (address value : Nat) : Memory :=
  (memory.store8 address (UInt8.ofNat value)).store8 (address + 1) (UInt8.ofNat (value / 256))

/-- Set every byte of `[address, address + length)`. -/
def fill (memory : Memory) (address length : Nat) (byte : UInt8) : Memory :=
  fun position => if address ≤ position ∧ position < address + length then byte else memory position

theorem load32_lt (memory : Memory) (address : Nat) : load32 memory address < 4294967296 := by
  have first := UInt8.toNat_lt (memory address)
  have second := UInt8.toNat_lt (memory (address + 1))
  have third := UInt8.toNat_lt (memory (address + 2))
  have fourth := UInt8.toNat_lt (memory (address + 3))
  unfold load32
  omega

@[simp] theorem store8_same : store8 memory address byte address = byte := by
  simp [store8]

theorem store8_other (different : other ≠ address) :
    store8 memory address byte other = memory other := by
  simp [store8, different]

theorem store8_eq_update : store8 memory address byte = Function.update memory address byte := by
  funext position
  rw [store8, Function.update_apply]

theorem store32_other (outside : other < address ∨ address + 4 ≤ other) :
    store32 memory address value other = memory other := by
  unfold store32
  rw [if_neg (by omega), if_neg (by omega), if_neg (by omega), if_neg (by omega)]

theorem fill_inside {length : Nat} (lower : address ≤ other) (upper : other < address + length) :
    fill memory address length byte other = byte := by
  unfold fill
  rw [if_pos ⟨lower, upper⟩]

theorem fill_other {length : Nat} (outside : other < address ∨ address + length ≤ other) :
    fill memory address length byte other = memory other := by
  unfold fill
  rw [if_neg (by omega)]

theorem load32_congr {after : Memory}
    (agree : ∀ position, address ≤ position → position < address + 4 →
      after position = memory position) :
    load32 after address = load32 memory address := by
  unfold load32
  rw [agree address (by omega) (by omega), agree (address + 1) (by omega) (by omega),
    agree (address + 2) (by omega) (by omega), agree (address + 3) (by omega) (by omega)]

theorem load16_move {after : Memory}
    (agree : ∀ index < 2, after (other + index) = memory (address + index)) :
    load16 after other = load16 memory address := by
  rw [load16, load16, ← agree 1 (by decide)]
  exact congrArg (fun byte : UInt8 => byte.toNat + _) (agree 0 (by decide))

theorem load32_move {after : Memory}
    (agree : ∀ index < 4, after (other + index) = memory (address + index)) :
    load32 after other = load32 memory address := by
  rw [load32, load32, ← agree 1 (by decide), ← agree 2 (by decide), ← agree 3 (by decide)]
  exact congrArg (fun byte : UInt8 => byte.toNat + _ + _ + _) (agree 0 (by decide))

theorem store32_congr {after : Memory} (same : after other = memory other) :
    store32 after address value other = store32 memory address value other := by
  simp only [store32, same]

theorem fill_congr {after : Memory} {length : Nat}
    (same : other < address ∨ address + length ≤ other → after other = memory other) :
    fill after address length byte other = fill memory address length byte other := by
  unfold fill
  split
  · rfl
  · exact same (by omega)

theorem store8_congr {after : Memory} (same : other ≠ address → after other = memory other) :
    store8 after address byte other = store8 memory address byte other := by
  unfold store8
  split
  · rfl
  · exact same (by assumption)

theorem load32_store32_same (bound : value < 4294967296) :
    load32 (store32 memory address value) address = value := by
  simp only [load32, store32, if_true, show address + 1 ≠ address by omega,
    show address + 2 ≠ address by omega, show address + 3 ≠ address by omega,
    show address + 2 ≠ address + 1 by omega, show address + 3 ≠ address + 1 by omega,
    show address + 3 ≠ address + 2 by omega, if_false, UInt8.toNat_ofNat', Nat.reducePow]
  omega

theorem load32_store32_other (apart : address + 4 ≤ other ∨ other + 4 ≤ address) :
    load32 (store32 memory address value) other = load32 memory other := by
  apply load32_congr
  intro position lower upper
  exact store32_other (by omega)

theorem load32_store8_other (apart : address < other ∨ other + 4 ≤ address) :
    load32 (store8 memory address byte) other = load32 memory other := by
  apply load32_congr
  intro position lower upper
  exact store8_other (by omega)

theorem load32_fill_zero {length : Nat} (lower : address ≤ other)
    (upper : other + 4 ≤ address + length) :
    load32 (fill memory address length 0) other = 0 := by
  unfold load32
  rw [fill_inside (by omega) (by omega), fill_inside (by omega) (by omega),
    fill_inside (by omega) (by omega), fill_inside (by omega) (by omega)]
  rfl

theorem load32_fill_other {length : Nat}
    (apart : address + length ≤ other ∨ other + 4 ≤ address) :
    load32 (fill memory address length byte) other = load32 memory other := by
  apply load32_congr
  intro position lower upper
  exact fill_other (by omega)

theorem load16_store16_same (bound : value < 65536) :
    load16 (store16 memory address value) address = value := by
  simp only [load16, store16, store8, if_true, show address ≠ address + 1 by omega, if_false,
    UInt8.toNat_ofNat', Nat.reducePow]
  omega

/-- Consecutive 16-bit words. -/
def words (memory : Memory) : Nat → Nat → List Nat
  | _, 0 => []
  | address, count + 1 => memory.load16 address :: words memory (address + 2) count

theorem words_add {first more : Nat} :
    words memory address (first + more) =
      words memory address first ++ words memory (address + 2 * first) more := by
  induction first generalizing address with
  | zero => simp [words]
  | succ first ih =>
      have shifted : address + 2 + 2 * first = address + 2 * (first + 1) := by omega
      rw [Nat.succ_add, words, words, ih, shifted, List.cons_append]

theorem words_congr {after : Memory} {count : Nat}
    (agree : ∀ position, address ≤ position → position < address + 2 * count →
      after position = memory position) :
    words after address count = words memory address count := by
  induction count generalizing address with
  | zero => rfl
  | succ count ih =>
      have later := @ih (address + 2) fun position lower upper =>
        agree position (by omega) (by omega)
      rw [words, words, later, load16, load16, agree address (by omega) (by omega),
        agree (address + 1) (by omega) (by omega)]

/-- Consecutive bytes. -/
def bytes (memory : Memory) : Nat → Nat → List UInt8
  | _, 0 => []
  | address, count + 1 => memory address :: bytes memory (address + 1) count

/-- The string at an address: its bytes before the terminator, at most `count`. -/
def text (memory : Memory) : Nat → Nat → List UInt8
  | _, 0 => []
  | address, count + 1 =>
      if memory address = 0 then [] else memory address :: text memory (address + 1) count

theorem text_congr {after : Memory} {count : Nat}
    (agree : ∀ index < count, after (other + index) = memory (address + index)) :
    text after other count = text memory address count := by
  induction count generalizing address other with
  | zero => rfl
  | succ count ih =>
      have later := @ih (address + 1) (other + 1) fun index small => by
        rw [Nat.add_assoc, Nat.add_assoc, Nat.add_comm 1 index]
        exact agree (index + 1) (by omega)
      have first : after other = memory address := agree 0 (by omega)
      rw [text, text, later, first]

theorem bytes_congr {after : Memory} {count : Nat}
    (agree : ∀ index < count, after (address + index) = memory (address + index)) :
    bytes after address count = bytes memory address count := by
  induction count generalizing address with
  | zero => rfl
  | succ count ih =>
      have later := @ih (address + 1) fun index small => by
        rw [Nat.add_assoc, Nat.add_comm 1 index]
        exact agree (index + 1) (by omega)
      have first : after address = memory address := agree 0 (by omega)
      rw [bytes, bytes, later, first]

theorem bytes_succ {count : Nat} :
    bytes memory address (count + 1) = bytes memory address count ++ [memory (address + count)] := by
  induction count generalizing address with
  | zero => rfl
  | succ count ih =>
      rw [bytes, ih, bytes, List.cons_append, Nat.add_assoc, Nat.add_comm 1 count]

theorem bytes_length {count : Nat} : (bytes memory address count).length = count := by
  induction count generalizing address with
  | zero => rfl
  | succ count ih => rw [bytes, List.length_cons, ih]

/-- A string is its bytes before the terminator. -/
theorem text_eq_bytes {count room : Nat}
    (nonzero : ∀ byte ∈ bytes memory address count, byte ≠ 0)
    (terminator : memory (address + count) = 0) (short : count < room) :
    text memory address room = bytes memory address count := by
  obtain ⟨room, rfl⟩ := Nat.exists_eq_succ_of_ne_zero (show room ≠ 0 by omega)
  induction count generalizing address room with
  | zero => exact if_pos terminator
  | succ count ih =>
      rw [bytes] at nonzero
      obtain ⟨room, rfl⟩ := Nat.exists_eq_succ_of_ne_zero (show room ≠ 0 by omega)
      have later := @ih (address + 1) (fun byte member => nonzero byte (by simp [member]))
        (by rw [Nat.add_assoc, Nat.add_comm 1]; exact terminator) room (by omega)
      rw [text, if_neg (nonzero _ (by simp)), bytes, later]

/-- Two strings agree byte by byte up to the first terminator. -/
theorem text_eq_iff {after : Memory} {count : Nat} :
    text after other (count + 1) = text memory address (count + 1) ↔
      after other = memory address ∧
        (after other = 0 ∨ text after (other + 1) count = text memory (address + 1) count) := by
  rw [text, text]
  by_cases ended : after other = 0
  · by_cases also : memory address = 0
    · simp [ended, also]
    · simp [ended, also, Ne.symm also]
  · by_cases also : memory address = 0
    · simp [ended, also]
    · simp [ended, also]

/-- A terminator behind a string changes nothing. -/
theorem text_terminated {count : Nat} (terminator : memory (address + count) = 0) :
    text memory address (count + 1) = text memory address count := by
  induction count generalizing address with
  | zero => exact if_pos terminator
  | succ count ih =>
      have later := @ih (address + 1) (by rw [Nat.add_assoc, Nat.add_comm 1]; exact terminator)
      rw [text, later, text]

/-- Only bytes of `[low, high)` may differ. -/
def Confined (low high : Nat) (before after : Memory) : Prop :=
  ∀ position, position < low ∨ high ≤ position → after position = before position

section

variable {low high : Nat} {middle after : Memory}

theorem Confined.refl : Confined low high memory memory := fun _ _ => rfl

theorem Confined.trans (first : Confined low high memory middle)
    (second : Confined low high middle after) : Confined low high memory after :=
  fun position outside => (second position outside).trans (first position outside)

theorem Confined.mono {lower upper : Nat} (confined : Confined low high memory after)
    (left : lower ≤ low) (right : high ≤ upper) : Confined lower upper memory after :=
  fun position outside => confined position (by omega)

theorem Confined.store8 (confined : Confined low high memory after) (lower : low ≤ address)
    (upper : address < high) : Confined low high memory (after.store8 address byte) := by
  intro position outside
  rw [store8_other (by omega)]
  exact confined position outside

theorem Confined.store32 (confined : Confined low high memory after) (lower : low ≤ address)
    (upper : address + 4 ≤ high) : Confined low high memory (after.store32 address value) := by
  intro position outside
  rw [store32_other (by omega)]
  exact confined position outside

theorem Confined.fill {length : Nat} (confined : Confined low high memory after)
    (lower : low ≤ address) (upper : address + length ≤ high) :
    Confined low high memory (after.fill address length byte) := by
  intro position outside
  rw [fill_other (by omega)]
  exact confined position outside

end

end Memory

end Helios.Data
