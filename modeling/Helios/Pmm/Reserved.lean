import Helios.Pmm.Frames

namespace Helios.Pmm

open Helios.Data

/-! `free_frame` of arbitrary addresses.

`init_pmm` reserves the lowest pages, and only their bits say so.  `free_frame`
checks that a page is in range and used, so it gives a reserved page back like
any other. -/

/-- A call of the allocator, with whatever address the caller passes. -/
inductive Call where
  | allocFrame
  | freeFrame (frame : Nat)
deriving Repr, DecidableEq

def call (pmm : PmmManager) : Call → PmmManager
  | .allocFrame => (allocFrame pmm).1
  | .freeFrame frame => freeFrame pmm frame

/-- The address is `NULL`, beyond the memory, or in no reserved page. -/
def Unreserved (pmm : PmmManager) (frame : Nat) : Prop :=
  frame = 0 ∨ pmm.totalPages ≤ frame / pageSize ∨
    reservedPages pmm.totalPages ≤ frame / pageSize

/-- The next `alloc_frame` returns no reserved page, and `NULL` only without an
effect. -/
def Guarded (pmm : PmmManager) : Prop :=
  ((allocFrame pmm).2 ≠ 0 → reservedPages pmm.totalPages ≤ (allocFrame pmm).2 / pageSize) ∧
    ((allocFrame pmm).2 = 0 → (allocFrame pmm).1 = pmm)

/-- The reserved pages are still marked as used. -/
structure Reserving (totalPages : Nat) (pmm : PmmManager) : Prop where
  initialized : pmm.initialized = true
  total : pmm.totalPages = totalPages
  bounded : totalPages ≤ 1048576
  used : ∀ page < totalPages, page < reservedPages totalPages → pmm.bitmap.test page = true

section

variable {pmm : PmmManager} {totalPages frame page totalMemoryKb : Nat} {contents : Bitmap}

theorem initPmm_reserving : Reserving (initPmm contents totalMemoryKb).totalPages
    (initPmm contents totalMemoryKb) where
  initialized := initPmm_initialized
  total := rfl
  bounded := initPmm_totalPages_le
  used page inside reserved := by
    rw [initPmm_test inside]
    simpa using reserved

theorem freeFrame_cases (pmm : PmmManager) (frame : Nat) : freeFrame pmm frame = pmm ∨
    (freeFrame pmm frame = give pmm (frame / pageSize) ∧ frame ≠ 0 ∧
      frame / pageSize < pmm.totalPages) := by
  unfold freeFrame
  by_cases rejected : pmm.initialized = false ∨ frame = 0
  · exact .inl (if_pos rejected)
  · rw [if_neg rejected]
    dsimp only
    by_cases beyond : pmm.totalPages ≤ frame / pageSize
    · exact .inl (if_pos beyond)
    · rw [if_neg beyond]
      by_cases clear : pmm.bitmap.test (frame / pageSize) = false
      · exact .inl (if_pos clear)
      · rw [if_neg clear]
        exact .inr ⟨rfl, fun null => rejected (.inr null), by omega⟩

namespace Reserving

variable (reserving : Reserving totalPages pmm)

include reserving

/-- A page that `alloc_frame` finds is not reserved. -/
theorem firstFree (found : Pmm.firstFree pmm = some page) :
    page < totalPages ∧ reservedPages totalPages ≤ page ∧ u32 (page * pageSize) = page * 4096 := by
  obtain ⟨inside, clear, _⟩ := firstFree_eq_some.mp found
  rw [reserving.total] at inside
  have bounded := reserving.bounded
  refine ⟨inside, ?_, u32_of_lt (by simp only [pageSize]; omega)⟩
  by_contra reserved
  rw [reserving.used page inside (by omega)] at clear
  cases clear

theorem guarded : Guarded pmm := by
  rw [Guarded, reserving.total]
  cases allocFrame_cases pmm with
  | inl failed =>
      rw [failed.1]
      exact ⟨fun found => absurd rfl found, fun _ => rfl⟩
  | inr taken =>
      obtain ⟨page, found, _, _, result⟩ := taken
      obtain ⟨_, unreserved, address⟩ := reserving.firstFree found
      have positive : 0 < reservedPages totalPages := by
        unfold reservedPages
        omega
      rw [result, address]
      refine ⟨fun _ => ?_, fun null => by simp only at null; omega⟩
      rw [pageSize, Nat.mul_div_cancel page (by decide)]
      exact unreserved

theorem allocFrame : Reserving totalPages (Pmm.allocFrame pmm).1 := by
  cases allocFrame_cases pmm with
  | inl failed =>
      rw [failed.1]
      exact reserving
  | inr taken =>
      obtain ⟨page, _, _, _, result⟩ := taken
      rw [result]
      refine ⟨?_, ?_, reserving.bounded, fun other inside reserved => ?_⟩
      · rw [take_initialized]
        exact reserving.initialized
      · rw [take_totalPages]
        exact reserving.total
      · rw [take_bitmap, Bitmap.test_set, reserving.used other inside reserved, Bool.or_true]

theorem freeFrame (unreserved : Unreserved pmm frame) :
    Reserving totalPages (Pmm.freeFrame pmm frame) := by
  cases freeFrame_cases pmm frame with
  | inl rejected =>
      rw [rejected]
      exact reserving
  | inr given =>
      obtain ⟨result, notNull, inside⟩ := given
      have high : reservedPages totalPages ≤ frame / pageSize := by
        rw [Unreserved, reserving.total] at unreserved
        rw [reserving.total] at inside
        omega
      rw [result]
      refine ⟨?_, ?_, reserving.bounded, fun other below reserved => ?_⟩
      · rw [give_initialized]
        exact reserving.initialized
      · rw [give_totalPages]
        exact reserving.total
      · rw [give_bitmap, Bitmap.test_clear, reserving.used other below reserved, Bool.and_true]
        simp only [decide_eq_true_eq]
        omega

/-- A reserved page is given back like any other. -/
theorem gives (reserved : ¬ Unreserved pmm frame) :
    Pmm.freeFrame pmm frame = give pmm (frame / pageSize) := by
  rw [Unreserved, reserving.total] at reserved
  have used := reserving.used (frame / pageSize) (by omega) (by omega)
  have notNull : frame ≠ 0 := by omega
  have inside : ¬ pmm.totalPages ≤ frame / pageSize := by
    rw [reserving.total]
    omega
  simp [Pmm.freeFrame, reserving.initialized, notNull, inside, used]

/-- It is then the next page that is handed out. -/
theorem exposes (reserved : ¬ Unreserved pmm frame) (counted : pmm.freePages + 1 < 4294967296) :
    Pmm.allocFrame (Pmm.freeFrame pmm frame) =
      (take (give pmm (frame / pageSize)) (frame / pageSize), frame / pageSize * 4096) := by
  have bounded := reserving.bounded
  have given := reserving.gives reserved
  rw [Unreserved, reserving.total] at reserved
  have found : Pmm.firstFree (give pmm (frame / pageSize)) = some (frame / pageSize) := by
    refine firstFree_eq_some.mpr ⟨?_, ?_, fun earlier below => ?_⟩
    · rw [give_totalPages, reserving.total]
      omega
    · rw [give_bitmap, Bitmap.test_clear]
      simp
    · rw [give_bitmap, Bitmap.test_clear, reserving.used earlier (by omega) (by omega),
        Bool.and_true]
      simp only [decide_eq_true_eq]
      omega
  have address : u32 (frame / pageSize * pageSize) = frame / pageSize * 4096 :=
    u32_of_lt (by simp only [pageSize] at reserved ⊢; omega)
  have available : (give pmm (frame / pageSize)).freePages ≠ 0 := by
    rw [give_freePages, u32_of_lt counted]
    exact Nat.succ_ne_zero _
  have ready : (give pmm (frame / pageSize)).initialized = true := by
    rw [give_initialized]
    exact reserving.initialized
  rw [given]
  simp only [Pmm.allocFrame, ready, available, found, address, Bool.true_eq_false, if_false]

end Reserving

/-- After calls that free no reserved page, `alloc_frame` is guarded. -/
theorem Reserving.calls {calls : List Call} (reserving : Reserving totalPages pmm)
    (unreserved : ∀ frame, Call.freeFrame frame ∈ calls → Unreserved pmm frame) :
    Reserving totalPages (calls.foldl call pmm) := by
  induction calls generalizing pmm with
  | nil => exact reserving
  | cons first rest ih =>
      have kept : Reserving totalPages (call pmm first) := by
        cases first with
        | allocFrame => exact reserving.allocFrame
        | freeFrame frame => exact reserving.freeFrame (unreserved frame (by simp))
      refine ih kept fun frame later => ?_
      have here := unreserved frame (by simp [later])
      rw [Unreserved, reserving.total] at here
      rw [Unreserved, kept.total]
      exact here

/-- Freeing a reserved page, and nothing else, ends the protection. -/
theorem Reserving.guarded_freeFrame_iff (reserving : Reserving totalPages pmm)
    (counted : pmm.freePages + 1 < 4294967296) :
    Guarded (Pmm.freeFrame pmm frame) ↔ Unreserved pmm frame := by
  constructor
  · intro guarded
    by_contra reserved
    have exposed := reserving.exposes reserved counted
    obtain ⟨returned, null⟩ := guarded
    rw [exposed, reserving.gives reserved] at null
    rw [exposed, reserving.gives reserved, give_totalPages, reserving.total] at returned
    rw [Unreserved, reserving.total] at reserved
    simp only [pageSize] at reserved returned null
    by_cases first : frame / 4096 = 0
    · have bits := congrArg (fun pmm => pmm.bitmap.test (frame / 4096)) (null (by omega))
      simp at bits
    · have unreserved := returned (by omega)
      rw [Nat.mul_div_cancel _ (by decide)] at unreserved
      omega
  · intro unreserved
    exact (reserving.freeFrame unreserved).guarded

/-- For every memory size and every run of calls that free no address of a
reserved page, `alloc_frame` never returns a reserved page, and has no effect
when it returns `NULL`; one further `free_frame` keeps that exactly when its
address is in no reserved page either. -/
theorem reserved_pages_guarded_iff (contents : Bitmap) (totalMemoryKb : Nat) (calls : List Call)
    (unreserved : ∀ frame, Call.freeFrame frame ∈ calls →
      Unreserved (initPmm contents totalMemoryKb) frame) :
    Guarded (calls.foldl call (initPmm contents totalMemoryKb)) ∧
      ((calls.foldl call (initPmm contents totalMemoryKb)).freePages + 1 < 4294967296 →
        ∀ frame, Guarded (freeFrame (calls.foldl call (initPmm contents totalMemoryKb)) frame) ↔
          Unreserved (calls.foldl call (initPmm contents totalMemoryKb)) frame) := by
  have reserving : Reserving (initPmm contents totalMemoryKb).totalPages
      (calls.foldl call (initPmm contents totalMemoryKb)) := initPmm_reserving.calls unreserved
  exact ⟨reserving.guarded, fun counted frame => reserving.guarded_freeFrame_iff counted⟩

theorem reserved_pages_guarded_iff_four_megabytes :
    Guarded ([Call.allocFrame, .freeFrame 0x300123].foldl call (initPmm (fun _ => 0) 4096)) := by
  refine (reserved_pages_guarded_iff (fun _ => 0) 4096 [.allocFrame, .freeFrame 0x300123] ?_).1
  intro frame member
  have same : frame = 0x300123 := by simpa using member
  rw [same, Unreserved, initPmm_totalPages]
  exact .inr (.inr (by decide))

/-- Page 1, with the tables of the BIOS, is handed out after it was freed. -/
theorem reserved_page_handed_out :
    (allocFrame (freeFrame (initPmm (fun _ => 0) 4096) 0x1000)).2 = 0x1000 ∧
      ¬ Guarded (freeFrame (initPmm (fun _ => 0) 4096) 0x1000) := by
  have reserving : Reserving (initPmm (fun _ => 0) 4096).totalPages (initPmm (fun _ => 0) 4096) :=
    initPmm_reserving
  have total : (initPmm (fun _ => 0) 4096).totalPages = 1024 := by
    rw [initPmm_totalPages]
    decide
  have counted : (initPmm (fun _ => 0) 4096).freePages + 1 < 4294967296 := by
    have fewer := (@initPmm_balanced (fun _ => 0) 4096 (by rw [total]; decide)).freePages_le
    omega
  have reserved : ¬ Unreserved (initPmm (fun _ => 0) 4096) 0x1000 := by
    rw [Unreserved, total]
    decide
  have address : 0x1000 / pageSize * 4096 = 0x1000 := by decide
  exact ⟨(congrArg Prod.snd (reserving.exposes reserved counted)).trans address,
    fun guarded => reserved ((reserving.guarded_freeFrame_iff counted).mp guarded)⟩

end

end Helios.Pmm
