import Helios.Pmm.Frames

namespace Helios.Pmm

open Helios.Data

/-! `init_pmm` for every 32-bit size.

Its three loops mark their pages without a look at the size of the memory or of
the bitmap, so they fit from 513 pages on; and the conversion to bytes wraps
from `2 ^ 22` KB on. -/

/-- The pages that the loops of `init_pmm` mark, in their order. -/
def markedPages (totalPages : Nat) : List Nat :=
  (List.range 256).map (0 + ·) ++
    (List.range (bitmapPages totalPages)).map (0x200000 / pageSize + ·) ++
    (List.range 256).map (0x100000 / pageSize + ·)

/-- The manager after the first `count` marks. -/
def marking (contents : Bitmap) (totalMemoryKb count : Nat) : PmmManager :=
  ((markedPages (clearPmm contents totalMemoryKb).totalPages).take count).foldl take
    (clearPmm contents totalMemoryKb)

/-- The account that `init_pmm` is to leave: all whole pages of the memory, marks
in the words that it zeroed, and a counter that is the number of clear bits and
loses one with every mark. -/
structure Accounts (contents : Bitmap) (totalMemoryKb : Nat) : Prop where
  totalPages : (initPmm contents totalMemoryKb).totalPages = totalMemoryKb * 1024 / 4096
  zeroed : ∀ page ∈ markedPages (initPmm contents totalMemoryKb).totalPages,
    page / 32 < bitmapSize (initPmm contents totalMemoryKb).totalPages
  freePages : (initPmm contents totalMemoryKb).freePages =
    ((initPmm contents totalMemoryKb).bitmap.clearBits
      (initPmm contents totalMemoryKb).totalPages).card
  unwrapped : ∀ count ≤ (markedPages (initPmm contents totalMemoryKb).totalPages).length,
    (marking contents totalMemoryKb count).freePages + count =
      (initPmm contents totalMemoryKb).totalPages

section

variable {contents : Bitmap} {totalMemoryKb totalPages count page : Nat}

theorem bitmapPages_eq (small : totalPages ≤ 1048576) :
    bitmapPages totalPages = (bitmapSize totalPages * 4 + 4095) / 4096 := by
  have words := bitmapSize_eq small
  unfold bitmapPages pageSize
  rw [u32_of_lt (by omega)]
  omega

theorem length_markedPages (totalPages : Nat) :
    (markedPages totalPages).length = reservedPages totalPages := by
  simp only [markedPages, List.length_append, List.length_map, List.length_range, reservedPages]
  omega

theorem mem_markedPages : page ∈ markedPages totalPages ↔ page < reservedPages totalPages := by
  simp only [markedPages, pageSize, List.mem_append, List.mem_map, List.mem_range, reservedPages]
  constructor
  · rintro ((⟨index, below, rfl⟩ | ⟨index, below, rfl⟩) | ⟨index, below, rfl⟩) <;> omega
  · intro below
    by_cases low : page < 256
    · exact .inl (.inl ⟨page, low, by omega⟩)
    · by_cases middle : page < 512
      · exact .inr ⟨page - 256, by omega, by omega⟩
      · exact .inl (.inr ⟨page - 512, by omega, by omega⟩)

/-- Marking counts down from the number of pages while there are any left. -/
theorem marking_freePages (room : count ≤ (clearPmm contents totalMemoryKb).totalPages)
    (inside : count ≤ (markedPages (clearPmm contents totalMemoryKb).totalPages).length) :
    (marking contents totalMemoryKb count).freePages + count =
      (clearPmm contents totalMemoryKb).totalPages := by
  have word := u32_lt (totalMemoryKb * 1024)
  have small : (clearPmm contents totalMemoryKb).totalPages < 4294967296 := by
    simp only [clearPmm, pageSize]
    omega
  induction count with
  | zero => simp [marking, clearPmm]
  | succ count ih =>
      have earlier := ih (by omega) (by omega)
      have step : marking contents totalMemoryKb (count + 1) =
          take (marking contents totalMemoryKb count)
            ((markedPages (clearPmm contents totalMemoryKb).totalPages).get ⟨count, inside⟩) := by
        simp only [marking, List.take_succ_eq_append_getElem inside, List.foldl_append,
          List.foldl_cons, List.foldl_nil, List.get_eq_getElem]
      rw [step, take_freePages, sub32_of_le (by omega) (by omega)]
      omega

/-- The reserved pages fit into the zeroed words from 513 pages on. -/
theorem marked_zeroed_iff (small : totalPages ≤ 1048576) :
    (∀ page ∈ markedPages totalPages, page / 32 < bitmapSize totalPages) ↔ 513 ≤ totalPages := by
  have words := bitmapSize_eq small
  have pages := bitmapPages_eq small
  constructor
  · intro zeroed
    have low := zeroed 511 (mem_markedPages.mpr (by unfold reservedPages; omega))
    have high := zeroed 512 (mem_markedPages.mpr (by unfold reservedPages; omega))
    omega
  · intro enough page marked
    rw [mem_markedPages, reservedPages] at marked
    omega

theorem reservedPages_le (small : totalPages ≤ 1048576) (enough : 513 ≤ totalPages) :
    reservedPages totalPages ≤ totalPages := by
  have words := bitmapSize_eq small
  have pages := bitmapPages_eq small
  unfold reservedPages
  omega

theorem totalPages_eq_iff (word : totalMemoryKb < 4294967296) :
    (initPmm contents totalMemoryKb).totalPages = totalMemoryKb * 1024 / 4096 ↔
      totalMemoryKb < 4194304 := by
  rw [initPmm_totalPages, u32]
  omega

theorem clearPmm_totalPages : (clearPmm contents totalMemoryKb).totalPages =
    (initPmm contents totalMemoryKb).totalPages := by
  simp only [initPmm, reserve_frame]

/-- `init_pmm` leaves the right account exactly for 2052 KB up to below 4 GB. -/
theorem accounts_iff (contents : Bitmap) (totalMemoryKb : Nat) (word : totalMemoryKb < 4294967296) :
    Accounts contents totalMemoryKb ↔ 2052 ≤ totalMemoryKb ∧ totalMemoryKb < 4194304 := by
  have small := @initPmm_totalPages_le contents totalMemoryKb
  constructor
  · intro accounts
    have whole := accounts.totalPages
    have below := (totalPages_eq_iff word).mp whole
    have enough := (marked_zeroed_iff small).mp accounts.zeroed
    omega
  · rintro ⟨enough, below⟩
    have total := (@totalPages_eq_iff contents _ word).mpr below
    have many : 513 ≤ (initPmm contents totalMemoryKb).totalPages := by omega
    have reserved := reservedPages_le small many
    refine ⟨total, (marked_zeroed_iff small).mpr many, (initPmm_balanced reserved).count, ?_⟩
    intro count inside
    rw [← clearPmm_totalPages]
    rw [length_markedPages] at inside
    refine marking_freePages ?_ ?_
    · rw [clearPmm_totalPages]
      omega
    · rw [length_markedPages, clearPmm_totalPages]
      exact inside

theorem accounts_iff_four_megabytes :
    Accounts (fun _ => 0) 4096 ↔ 2052 ≤ 4096 ∧ 4096 < 4194304 :=
  accounts_iff (fun _ => 0) 4096 (by decide)

/-- A machine of 4 GB has no pages at all. -/
theorem four_gigabytes_unaccounted :
    (initPmm (fun _ => 0) 4194304).totalPages = 0 ∧ ¬ Accounts (fun _ => 0) 4194304 := by
  have none : (initPmm (fun _ => 0) 4194304).totalPages = 0 := by
    rw [initPmm_totalPages]
    decide
  refine ⟨none, fun accounts => ?_⟩
  have total := accounts.totalPages
  rw [none] at total
  cases total

end

end Helios.Pmm
