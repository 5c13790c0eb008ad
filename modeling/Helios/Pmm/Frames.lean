import Helios.Pmm.Model

namespace Helios.Pmm

open Helios.Data

/-! What the frame allocator does to its bitmap and its counter. -/

section

variable {pmm : PmmManager} {page start count frame : Nat}

@[simp] theorem take_totalPages : (take pmm page).totalPages = pmm.totalPages := by
  cases pmm
  rfl

@[simp] theorem take_totalMemory : (take pmm page).totalMemory = pmm.totalMemory := by
  cases pmm
  rfl

@[simp] theorem take_initialized : (take pmm page).initialized = pmm.initialized := by
  cases pmm
  rfl

@[simp] theorem take_bitmap : (take pmm page).bitmap = pmm.bitmap.set page := by
  cases pmm
  rfl

theorem take_freePages : (take pmm page).freePages = sub32 pmm.freePages 1 := by
  cases pmm
  rfl

@[simp] theorem give_totalPages : (give pmm page).totalPages = pmm.totalPages := by
  cases pmm
  rfl

@[simp] theorem give_totalMemory : (give pmm page).totalMemory = pmm.totalMemory := by
  cases pmm
  rfl

@[simp] theorem give_initialized : (give pmm page).initialized = pmm.initialized := by
  cases pmm
  rfl

@[simp] theorem give_bitmap : (give pmm page).bitmap = pmm.bitmap.clear page := by
  cases pmm
  rfl

theorem give_freePages : (give pmm page).freePages = u32 (pmm.freePages + 1) := by
  cases pmm
  rfl

theorem reserve_zero : reserve pmm start 0 = pmm := rfl

theorem reserve_succ : reserve pmm start (count + 1) = take (reserve pmm start count) (start + count) := by
  simp [reserve, List.range_succ]

theorem reserve_frame :
    (reserve pmm start count).totalPages = pmm.totalPages ∧
      (reserve pmm start count).totalMemory = pmm.totalMemory := by
  induction count with
  | zero => exact ⟨rfl, rfl⟩
  | succ count ih => simpa only [reserve_succ, take_totalPages, take_totalMemory] using ih

theorem test_reserve : (reserve pmm start count).bitmap.test page =
    (decide (start ≤ page ∧ page < start + count) || pmm.bitmap.test page) := by
  induction count with
  | zero => simp [reserve_zero, show ¬ (start ≤ page ∧ page < start) by omega]
  | succ count ih =>
      rw [reserve_succ, take_bitmap, Bitmap.test_set, ih, ← Bool.or_assoc, ← Bool.decide_or]
      congr 1
      simp only [decide_eq_decide]
      omega

/-- The counter agrees with the bitmap. -/
structure Balanced (pmm : PmmManager) : Prop where
  count : pmm.freePages = (pmm.bitmap.clearBits pmm.totalPages).card
  small : pmm.totalPages < 4294967296

theorem Balanced.freePages_le (balanced : Balanced pmm) : pmm.freePages ≤ pmm.totalPages := by
  rw [balanced.count]
  exact Bitmap.card_clearBits_le

theorem Balanced.take (balanced : Balanced pmm) (inside : page < pmm.totalPages)
    (free : pmm.bitmap.test page = false) :
    Balanced (take pmm page) ∧ (take pmm page).freePages + 1 = pmm.freePages := by
  have fewer := Bitmap.card_clearBits_set inside free
  have bound := balanced.freePages_le
  have small := balanced.small
  have count := balanced.count
  have left : sub32 pmm.freePages 1 = pmm.freePages - 1 :=
    sub32_of_le (by omega) (by omega)
  refine ⟨⟨?_, by simpa only [take_totalPages] using small⟩, ?_⟩
  · rw [take_freePages, left, take_bitmap, take_totalPages]
    omega
  · rw [take_freePages, left]
    omega

theorem Balanced.give (balanced : Balanced pmm) (inside : page < pmm.totalPages)
    (used : pmm.bitmap.test page = true) : Balanced (give pmm page) := by
  have more := Bitmap.card_clearBits_clear inside used
  have most : ((pmm.bitmap.clear page).clearBits pmm.totalPages).card ≤ pmm.totalPages :=
    Bitmap.card_clearBits_le
  have small := balanced.small
  have count := balanced.count
  refine ⟨?_, by simpa only [give_totalPages] using small⟩
  rw [give_freePages, give_bitmap, give_totalPages, u32_of_lt (by omega)]
  omega

theorem Balanced.reserve (balanced : Balanced pmm) (inside : start + count ≤ pmm.totalPages)
    (free : ∀ page, start ≤ page → page < start + count → pmm.bitmap.test page = false) :
    Balanced (reserve pmm start count) := by
  induction count with
  | zero => exact balanced
  | succ count ih =>
      rw [reserve_succ]
      have earlier := ih (by omega) (fun page low high => free page low (by omega))
      refine (earlier.take ?_ ?_).1
      · rw [reserve_frame.1]
        omega
      · rw [test_reserve]
        simp [free (start + count) (by omega) (by omega)]

theorem firstFree_eq_some : firstFree pmm = some page ↔
    page < pmm.totalPages ∧ pmm.bitmap.test page = false ∧
      ∀ earlier < page, pmm.bitmap.test earlier = true := by
  rw [firstFree, List.find?_range_eq_some]
  simp only [Bool.not_eq_true', Bool.not_not, List.mem_range]
  tauto

theorem firstFree_eq_none : firstFree pmm = none ↔
    ∀ page < pmm.totalPages, pmm.bitmap.test page = true := by
  simp [firstFree]

theorem allocFrame_cases (pmm : PmmManager) :
    (allocFrame pmm = (pmm, 0) ∧ (pmm.initialized = false ∨ pmm.freePages = 0 ∨
        ∀ page < pmm.totalPages, pmm.bitmap.test page = true)) ∨
      ∃ page, firstFree pmm = some page ∧ pmm.initialized = true ∧ pmm.freePages ≠ 0 ∧
        allocFrame pmm = (take pmm page, u32 (page * pageSize)) := by
  by_cases raw : pmm.initialized = false
  · exact .inl ⟨by simp [allocFrame, raw], .inl raw⟩
  · by_cases exhausted : pmm.freePages = 0
    · exact .inl ⟨by simp [allocFrame, exhausted], .inr (.inl exhausted)⟩
    · cases found : firstFree pmm with
      | none =>
          exact .inl ⟨by simp [allocFrame, found], .inr (.inr (firstFree_eq_none.mp found))⟩
      | some page =>
          exact .inr ⟨page, rfl, by simpa using raw, exhausted,
            by simp [allocFrame, raw, exhausted, found]⟩

theorem allocFrame_failed (bounded : pmm.totalPages ≤ 1048576)
    (nullUsed : pmm.bitmap.test 0 = true) (failed : allocFrame pmm = (pmm, 0)) :
    pmm.initialized = false ∨ pmm.freePages = 0 ∨
      ∀ page < pmm.totalPages, pmm.bitmap.test page = true := by
  cases allocFrame_cases pmm with
  | inl nothing => exact nothing.2
  | inr taken =>
      obtain ⟨page, found, _, _, result⟩ := taken
      obtain ⟨inside, clear, _⟩ := firstFree_eq_some.mp found
      have null : u32 (page * pageSize) = 0 := by
        rw [failed] at result
        exact (congrArg Prod.snd result).symm
      rw [u32_of_lt (by simp only [pageSize]; omega), pageSize] at null
      rw [show page = 0 by omega, nullUsed] at clear
      cases clear

/-- An allocator that keeps its count gives a frame while the count is not `0`. -/
theorem Balanced.exhausted (balanced : Balanced pmm) (bounded : pmm.totalPages ≤ 1048576)
    (nullUsed : pmm.bitmap.test 0 = true) (initialized : pmm.initialized = true)
    (exhausted : allocFrame pmm = (pmm, 0)) : pmm.freePages = 0 := by
  obtain raw | none_left | full := allocFrame_failed bounded nullUsed exhausted
  · simp [initialized] at raw
  · exact none_left
  · rw [balanced.count, Finset.card_eq_zero, Finset.eq_empty_iff_forall_notMem]
    intro page clear
    rw [Bitmap.mem_clearBits] at clear
    simp [full page clear.1] at clear

/-- The frame allocator never hands out `NULL` or a used frame. -/
theorem allocFrame_fresh (bounded : pmm.totalPages ≤ 1048576)
    (nullUsed : pmm.bitmap.test 0 = true) :
    allocFrame pmm = (pmm, 0) ∨
      ∃ page, page < pmm.totalPages ∧ pmm.bitmap.test page = false ∧ firstFree pmm = some page ∧
        allocFrame pmm = (take pmm page, page * 4096) ∧ page * 4096 ≠ 0 := by
  cases allocFrame_cases pmm with
  | inl failed => exact .inl failed.1
  | inr taken =>
      obtain ⟨page, found, _, _, result⟩ := taken
      obtain ⟨inside, clear, _⟩ := firstFree_eq_some.mp found
      have address : u32 (page * pageSize) = page * 4096 :=
        u32_of_lt (by simp only [pageSize]; omega)
      rw [address] at result
      refine .inr ⟨page, inside, clear, found, result, ?_⟩
      have notNull : page ≠ 0 := by
        intro same
        rw [same, nullUsed] at clear
        cases clear
      omega

/-- The allocator can give `count` frames: by its counter and by its bitmap. -/
structure Enough (pmm : PmmManager) (count : Nat) : Prop where
  initialized : pmm.initialized = true
  counter : count ≤ pmm.freePages
  word : pmm.freePages < 4294967296
  clear : count ≤ (pmm.bitmap.clearBits pmm.totalPages).card

theorem Balanced.enough (balanced : Balanced pmm) (initialized : pmm.initialized = true)
    (left : count ≤ pmm.freePages) : Enough pmm count := by
  have bound := balanced.freePages_le
  have small := balanced.small
  exact ⟨initialized, left, by omega, balanced.count ▸ left⟩

theorem Enough.fewer (enough : Enough pmm count) {other : Nat} (fewer : other ≤ count) :
    Enough pmm other :=
  ⟨enough.initialized, fewer.trans enough.counter, enough.word, fewer.trans enough.clear⟩

theorem Enough.take (enough : Enough pmm (count + 1)) (inside : page < pmm.totalPages)
    (free : pmm.bitmap.test page = false) : Enough (take pmm page) count := by
  have fewer := Bitmap.card_clearBits_set inside free
  have counter := enough.counter
  have word := enough.word
  have clear := enough.clear
  have left : sub32 pmm.freePages 1 = pmm.freePages - 1 := sub32_of_le word (by omega)
  refine ⟨by simpa only [take_initialized] using enough.initialized, ?_, ?_, ?_⟩
  · rw [take_freePages, left]
    omega
  · rw [take_freePages, left]
    omega
  · rw [take_bitmap, take_totalPages]
    omega

theorem Enough.allocFrame (enough : Enough pmm (count + 1)) (bounded : pmm.totalPages ≤ 1048576)
    (nullUsed : pmm.bitmap.test 0 = true) :
    ∃ page, page < pmm.totalPages ∧ pmm.bitmap.test page = false ∧
      allocFrame pmm = (Pmm.take pmm page, page * 4096) ∧ page * 4096 ≠ 0 := by
  cases allocFrame_fresh bounded nullUsed with
  | inr taken =>
      obtain ⟨page, inside, free, _, result, notNull⟩ := taken
      exact ⟨page, inside, free, result, notNull⟩
  | inl failed =>
      have counter := enough.counter
      have clear := enough.clear
      obtain raw | exhausted | full := allocFrame_failed bounded nullUsed failed
      · simp [enough.initialized] at raw
      · omega
      · obtain ⟨page, member⟩ := Finset.card_pos.mp (Nat.lt_of_lt_of_le (Nat.succ_pos count) clear)
        obtain ⟨inside, free⟩ := Bitmap.mem_clearBits.mp member
        simp [full page inside] at free

/-- The pages that `init_pmm` marks as used: `0`-`2` MB and the bitmap itself. -/
def reservedPages (totalPages : Nat) : Nat := 512 + bitmapPages totalPages

section

variable {contents : Bitmap} {totalMemoryKb : Nat}

theorem bitmapSize_eq {totalPages : Nat} (small : totalPages ≤ 1048576) :
    bitmapSize totalPages = ((totalPages + 31) / 32 + 3) / 4 * 4 := by
  have rounded : (totalPages + 31) / 32 + 3 &&& 0xFFFFFFFC = ((totalPages + 31) / 32 + 3) / 4 * 4 :=
    and_highMask (show (totalPages + 31) / 32 + 3 < 2 ^ (30 + 2) by omega)
  rw [bitmapSize, u32_of_lt (by omega), rounded]

theorem bitmapSize_covers {totalPages : Nat} (small : totalPages ≤ 1048576) :
    totalPages ≤ 32 * bitmapSize totalPages := by
  rw [bitmapSize_eq small]
  omega

theorem initPmm_totalMemory :
    (initPmm contents totalMemoryKb).totalMemory = u32 (totalMemoryKb * 1024) := by
  simp only [initPmm, reserve_frame, clearPmm]

theorem initPmm_totalPages :
    (initPmm contents totalMemoryKb).totalPages = u32 (totalMemoryKb * 1024) / 4096 := by
  simp only [initPmm, reserve_frame, clearPmm, pageSize]

theorem initPmm_initialized : (initPmm contents totalMemoryKb).initialized = true := by
  simp only [initPmm]

theorem initPmm_totalPages_le : (initPmm contents totalMemoryKb).totalPages ≤ 1048576 := by
  have word := u32_lt (totalMemoryKb * 1024)
  rw [initPmm_totalPages]
  omega

theorem test_initPmm {page : Nat} : (initPmm contents totalMemoryKb).bitmap.test page =
    (decide (page < reservedPages (initPmm contents totalMemoryKb).totalPages) ||
      (clearPmm contents totalMemoryKb).bitmap.test page) := by
  simp only [reservedPages, initPmm_totalPages]
  simp only [initPmm, reserve_frame, test_reserve, clearPmm, pageSize, ← Bool.or_assoc,
    ← Bool.decide_or]
  congr 1
  simp only [decide_eq_decide]
  omega

theorem test_clearPmm {page : Nat} (inside : page < u32 (totalMemoryKb * 1024) / 4096) :
    (clearPmm contents totalMemoryKb).bitmap.test page = false := by
  have word := u32_lt (totalMemoryKb * 1024)
  have covered := bitmapSize_covers (show u32 (totalMemoryKb * 1024) / 4096 ≤ 1048576 by omega)
  exact Bitmap.test_zero (inside.trans_le covered)

theorem initPmm_test {page : Nat} (inside : page < (initPmm contents totalMemoryKb).totalPages) :
    (initPmm contents totalMemoryKb).bitmap.test page =
      decide (page < reservedPages (initPmm contents totalMemoryKb).totalPages) := by
  rw [initPmm_totalPages] at inside
  rw [test_initPmm, test_clearPmm inside, Bool.or_false]

theorem clearPmm_balanced : Balanced (clearPmm contents totalMemoryKb) := by
  have word := u32_lt (totalMemoryKb * 1024)
  have everything : (clearPmm contents totalMemoryKb).bitmap.clearBits
      (u32 (totalMemoryKb * 1024) / 4096) = Finset.range (u32 (totalMemoryKb * 1024) / 4096) := by
    ext page
    rw [Bitmap.mem_clearBits, Finset.mem_range]
    exact ⟨And.left, fun inside => ⟨inside, test_clearPmm inside⟩⟩
  constructor
  · simp only [clearPmm, pageSize] at everything ⊢
    rw [everything, Finset.card_range]
  · simp only [clearPmm, pageSize]
    omega

/-- The three loops of `init_pmm` mark disjoint ranges. -/
theorem initPmm_balanced
    (enough : reservedPages (initPmm contents totalMemoryKb).totalPages ≤
      (initPmm contents totalMemoryKb).totalPages) : Balanced (initPmm contents totalMemoryKb) := by
  have free : ∀ page, page < (clearPmm contents totalMemoryKb).totalPages →
      (clearPmm contents totalMemoryKb).bitmap.test page = false := fun page => test_clearPmm
  have total : (initPmm contents totalMemoryKb).totalPages =
      (clearPmm contents totalMemoryKb).totalPages := by
    simp only [initPmm, reserve_frame]
  rw [total, reservedPages] at enough
  have initial : Balanced (clearPmm contents totalMemoryKb) := clearPmm_balanced
  have low : Balanced (reserve (clearPmm contents totalMemoryKb) 0 256) :=
    initial.reserve (by omega) (fun page _ high => free page (by omega))
  have middle : Balanced (reserve (reserve (clearPmm contents totalMemoryKb) 0 256) 512
      (bitmapPages (clearPmm contents totalMemoryKb).totalPages)) := by
    refine low.reserve (by rw [reserve_frame.1]; omega) (fun page begins ends => ?_)
    rw [test_reserve, free page (by omega)]
    simp only [Bool.or_false, decide_eq_false_iff_not]
    omega
  have high := middle.reserve (show 256 + 256 ≤ _ by rw [reserve_frame.1, reserve_frame.1]; omega)
    (fun page begins ends => by
      rw [test_reserve, test_reserve, free page (by omega)]
      simp only [Bool.or_false, Bool.or_eq_false_iff, decide_eq_false_iff_not]
      omega)
  constructor
  · simpa only [initPmm, reserve_frame, pageSize] using high.count
  · simpa only [initPmm, reserve_frame, pageSize] using high.small

end

/-- While frames are only taken, the used pages are the lowest ones. -/
structure Sequential (pmm : PmmManager) (count : Nat) : Prop where
  initialized : pmm.initialized = true
  bounded : pmm.totalPages ≤ 1048576
  positive : 0 < count
  inside : count ≤ pmm.totalPages
  test : ∀ page < pmm.totalPages, pmm.bitmap.test page = decide (page < count)
  freePages : pmm.freePages = pmm.totalPages - count

theorem initPmm_sequential {contents : Bitmap} {totalMemoryKb : Nat}
    (enough : reservedPages (initPmm contents totalMemoryKb).totalPages ≤
      (initPmm contents totalMemoryKb).totalPages) :
    Sequential (initPmm contents totalMemoryKb)
      (reservedPages (initPmm contents totalMemoryKb).totalPages) := by
  have remaining : (initPmm contents totalMemoryKb).bitmap.clearBits
      (initPmm contents totalMemoryKb).totalPages =
      Finset.Ico (reservedPages (initPmm contents totalMemoryKb).totalPages)
        (initPmm contents totalMemoryKb).totalPages := by
    ext page
    rw [Bitmap.mem_clearBits, Finset.mem_Ico, and_comm]
    refine and_congr_left fun inside => ?_
    rw [initPmm_test inside, decide_eq_false_iff_not, Nat.not_lt]
  refine ⟨initPmm_initialized, initPmm_totalPages_le, ?_, enough, fun page => initPmm_test, ?_⟩
  · unfold reservedPages
    omega
  · rw [(initPmm_balanced enough).count, remaining, Nat.card_Ico]

theorem Sequential.balanced (sequential : Sequential pmm count) : Balanced pmm := by
  have bounded := sequential.bounded
  have remaining : pmm.bitmap.clearBits pmm.totalPages = Finset.Ico count pmm.totalPages := by
    ext page
    rw [Bitmap.mem_clearBits, Finset.mem_Ico, and_comm]
    refine and_congr_left fun inside => ?_
    rw [sequential.test page inside, decide_eq_false_iff_not, Nat.not_lt]
  refine ⟨?_, by omega⟩
  rw [sequential.freePages, remaining, Nat.card_Ico]

theorem Sequential.firstFree_eq (sequential : Sequential pmm count)
    (room : count < pmm.totalPages) : firstFree pmm = some count := by
  refine firstFree_eq_some.mpr ⟨room, ?_, fun earlier below => ?_⟩
  · rw [sequential.test count room]
    simp
  · rw [sequential.test earlier (by omega)]
    simpa using below

theorem Sequential.allocFrame_eq (sequential : Sequential pmm count)
    (room : count < pmm.totalPages) : allocFrame pmm = (Pmm.take pmm count, count * 4096) := by
  have bounded := sequential.bounded
  have available : pmm.freePages ≠ 0 := by
    rw [sequential.freePages]
    omega
  have address : u32 (count * pageSize) = count * 4096 :=
    u32_of_lt (by simp only [pageSize]; omega)
  simp [allocFrame, sequential.initialized, available, sequential.firstFree_eq room, address]

theorem Sequential.take (sequential : Sequential pmm count) (room : count < pmm.totalPages) :
    Sequential (Pmm.take pmm count) (count + 1) := by
  have bounded := sequential.bounded
  refine ⟨?_, ?_, by omega, ?_, ?_, ?_⟩
  · simpa only [take_initialized] using sequential.initialized
  · simpa only [take_totalPages] using bounded
  · rw [take_totalPages]
    exact room
  · intro page inside
    rw [take_totalPages] at inside
    rw [take_bitmap, Bitmap.test_set, sequential.test page inside, ← Bool.decide_or]
    simp only [decide_eq_decide]
    omega
  · rw [take_freePages, take_totalPages, sequential.freePages, sub32_of_le (by omega) (by omega)]
    omega

theorem Sequential.exhausted (sequential : Sequential pmm count)
    (full : pmm.totalPages ≤ count) : allocFrame pmm = (pmm, 0) := by
  have none_left : pmm.freePages = 0 := by
    rw [sequential.freePages]
    omega
  simp [allocFrame, none_left]

/-- The next frame, or none at all. -/
theorem Sequential.allocFrame_next (sequential : Sequential pmm count) :
    ∃ next ≤ count + 1, Sequential (allocFrame pmm).1 next ∧
      ∃ page ≤ count, (allocFrame pmm).2 = page * 4096 := by
  by_cases room : count < pmm.totalPages
  · rw [sequential.allocFrame_eq room]
    exact ⟨count + 1, Nat.le_refl _, sequential.take room, count, Nat.le_refl _, rfl⟩
  · rw [sequential.exhausted (Nat.le_of_not_lt room)]
    exact ⟨count, Nat.le_succ _, sequential, 0, Nat.zero_le _, rfl⟩

end

end Helios.Pmm
