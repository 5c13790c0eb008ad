import Helios.Data.Memory
import Helios.Data.Shift

namespace Helios.Strings

open Helios.Data

/-! `memmove` of `string.c`, for ranges that may overlap. -/

/-- `d[i] = s[i]`. -/
def moveByte (dest src : Nat) (memory : Memory) (i : Nat) : Memory :=
  memory.store8 (u32 (dest + i)) (memory (u32 (src + i)))

/-- The second loop of `memmove`: `i` counts down to `1`. -/
def moveDown (dest src : Nat) (memory : Memory) : Nat → Memory
  | 0 => memory
  | i + 1 => moveDown dest src (moveByte dest src memory i) i

/-- `memmove`, with the pointer it returns. -/
def memmove (memory : Memory) (dest src len : Nat) : Memory × Nat :=
  if dest < src then ((List.range len).foldl (moveByte dest src) memory, dest)
  else (moveDown dest src memory len, dest)

section

variable {memory : Memory} {dest src len index : Nat} {order : List Nat}

theorem moveDown_eq : moveDown dest src memory len =
    (List.range len).reverse.foldl (moveByte dest src) memory := by
  induction len generalizing memory with
  | zero => rfl
  | succ len ih =>
      rw [moveDown, ih, List.range_succ, List.reverse_concat, List.foldl_cons]

theorem moveBytes_eq : order.foldl (moveByte dest src) memory =
    copyAlong (fun i => u32 (src + i)) (fun i => u32 (dest + i)) order memory := by
  have step : moveByte dest src = fun memory i =>
      Function.update memory (u32 (dest + i)) (memory (u32 (src + i))) := by
    funext memory i
    exact Memory.store8_eq_update
  rw [step]
  rfl

theorem address_eq {base : Nat} (bound : base + len ≤ 4294967296)
    (members : ∀ i ∈ order, i < len) : ∀ i ∈ order, u32 (base + i) = base + i := fun i member => by
  have inside := members i member
  exact u32_of_lt (by omega)

theorem moveBytes_confined (destBound : dest + len ≤ 4294967296)
    (members : ∀ i ∈ order, i < len) :
    Memory.Confined dest (dest + len) memory (order.foldl (moveByte dest src) memory) := by
  intro position outside
  rw [moveBytes_eq]
  refine copyAlong_other fun i member => ?_
  have inside := members i member
  rw [address_eq destBound members i member]
  omega

/-- Moving in an order in which no byte is written before it has been read. -/
theorem moveBytes_moved (destBound : dest + len ≤ 4294967296) (srcBound : src + len ≤ 4294967296)
    (members : ∀ i ∈ order, i < len)
    (safe : order.Pairwise fun earlier later => dest + earlier ≠ src + later ∧ earlier ≠ later)
    (member : index ∈ order) :
    order.foldl (moveByte dest src) memory (dest + index) = memory (src + index) := by
  have target := address_eq destBound members
  have source := address_eq srcBound members
  have apart : order.Pairwise fun earlier later =>
      u32 (dest + earlier) ≠ u32 (src + later) ∧ u32 (dest + earlier) ≠ u32 (dest + later) :=
    safe.imp_of_mem fun {earlier later} first second different => by
      rw [target earlier first, source later second, target later second]
      omega
  have moved : copyAlong (fun i => u32 (src + i)) (fun i => u32 (dest + i)) order memory
      (u32 (dest + index)) = memory (u32 (src + index)) := copyAlong_target apart member
  rw [target index member, source index member] at moved
  rw [moveBytes_eq]
  exact moved

/-- What every order does that takes each place below `len`. -/
theorem moveBytes_moves (destBound : dest + len ≤ 4294967296) (srcBound : src + len ≤ 4294967296)
    (places : ∀ i, i ∈ order ↔ i < len)
    (safe : order.Pairwise fun earlier later => dest + earlier ≠ src + later ∧ earlier ≠ later) :
    (∀ index < len, order.foldl (moveByte dest src) memory (dest + index) =
      memory (src + index)) ∧
      Memory.Confined dest (dest + len) memory (order.foldl (moveByte dest src) memory) := by
  have members : ∀ i ∈ order, i < len := fun i member => (places i).mp member
  constructor
  · intro index inside
    exact moveBytes_moved destBound srcBound members safe ((places index).mpr inside)
  · exact moveBytes_confined destBound members

/-- However the two ranges overlap, the destination gets the bytes that the source
had, and nothing else changes. -/
theorem memmove_moves (memory : Memory) (dest src len : Nat)
    (destBound : dest + len ≤ 4294967296) (srcBound : src + len ≤ 4294967296) :
    (∀ index < len, (memmove memory dest src len).1 (dest + index) = memory (src + index)) ∧
      Memory.Confined dest (dest + len) memory (memmove memory dest src len).1 ∧
      (memmove memory dest src len).2 = dest := by
  by_cases before : dest < src
  · rw [memmove, if_pos before]
    -- Upwards, what is written lies below what is still to be read.
    have safe : (List.range len).Pairwise fun earlier later =>
        dest + earlier ≠ src + later ∧ earlier ≠ later :=
      List.pairwise_lt_range.imp fun {earlier later} ordered => ⟨by omega, by omega⟩
    obtain ⟨moved, confined⟩ := moveBytes_moves destBound srcBound (by simp) safe
    exact ⟨moved, confined, rfl⟩
  · rw [memmove, if_neg before, moveDown_eq]
    -- Downwards it lies above, or where it was read from.
    have safe : (List.range len).reverse.Pairwise fun earlier later =>
        dest + earlier ≠ src + later ∧ earlier ≠ later :=
      List.pairwise_reverse.mpr
        (List.pairwise_lt_range.imp fun {later earlier} ordered => ⟨by omega, by omega⟩)
    obtain ⟨moved, confined⟩ := moveBytes_moves destBound srcBound (by simp) safe
    exact ⟨moved, confined, rfl⟩

/-- Three bytes, two places up. -/
theorem memmove_moves_overlap :
    let after := (memmove (fun position => UInt8.ofNat position) 2 0 3).1
    after 1 = 1 ∧ after 2 = 0 ∧ after 3 = 1 ∧ after 4 = 2 ∧ after 5 = 5 := by
  obtain ⟨moved, confined, _⟩ :=
    memmove_moves (fun position => UInt8.ofNat position) 2 0 3 (by decide) (by decide)
  exact ⟨confined 1 (by decide), moved 0 (by decide), moved 1 (by decide), moved 2 (by decide),
    confined 5 (by decide)⟩

end

end Helios.Strings
