import Mathlib.Logic.Relation
import Mathlib.Order.Bounds.Basic
import Helios.Pmm.Frames

namespace Helios.Pmm

open Helios.Data

/-! Clients of the frame allocator.

The abstract state is the set of used page numbers: the reserved ones and those
of the frames that clients hold. -/

structure Session where
  pmm : PmmManager
  held : List Nat

/-- A client takes a frame, gives one back, or frees a frame that is free. -/
inductive Step : Session → Session → Prop
  | alloc {session : Session} {pmm : PmmManager} {frame : Nat}
      (result : allocFrame session.pmm = (pmm, frame)) :
      Step session ⟨pmm, if frame = 0 then session.held else frame :: session.held⟩
  | free {session : Session} (frame : Nat) (held : frame ∈ session.held) :
      Step session ⟨freeFrame session.pmm frame, session.held.erase frame⟩
  | freeTwice {session : Session} (page : Nat) (inside : page < session.pmm.totalPages)
      (clear : session.pmm.bitmap.test page = false) :
      Step session ⟨freeFrame session.pmm (page * 4096), session.held⟩

def Session.initial (contents : Bitmap) (totalMemoryKb : Nat) : Session :=
  ⟨initPmm contents totalMemoryKb, []⟩

/-- The bitmap is the set of reserved and held pages. -/
structure Consistent (bytes reserved : Nat) (session : Session) : Prop where
  balanced : Balanced session.pmm
  initialized : session.pmm.initialized = true
  totalMemory : session.pmm.totalMemory = bytes
  totalPages : session.pmm.totalPages = bytes / 4096
  word : bytes < 4294967296
  positive : 0 < reserved
  used : ∀ page < session.pmm.totalPages, session.pmm.bitmap.test page = true ↔
    page < reserved ∨ page * 4096 ∈ session.held
  held : ∀ frame ∈ session.held, ∃ page, frame = page * 4096 ∧ reserved ≤ page ∧
    page < session.pmm.totalPages
  distinct : session.held.Nodup

section

variable {bytes reserved page : Nat} {session next : Session}

theorem initial_consistent {contents : Bitmap} {totalMemoryKb : Nat}
    (small : totalMemoryKb < 2 ^ 22)
    (enough : reservedPages (totalMemoryKb * 1024 / 4096) ≤ totalMemoryKb * 1024 / 4096) :
    Consistent (totalMemoryKb * 1024) (reservedPages (totalMemoryKb * 1024 / 4096))
      (Session.initial contents totalMemoryKb) := by
  have exact : u32 (totalMemoryKb * 1024) = totalMemoryKb * 1024 := u32_of_lt (by omega)
  have total : (initPmm contents totalMemoryKb).totalPages = totalMemoryKb * 1024 / 4096 := by
    rw [initPmm_totalPages, exact]
  refine
    { balanced := initPmm_balanced (by rw [total]; exact enough)
      initialized := initPmm_initialized
      totalMemory := initPmm_totalMemory.trans exact
      totalPages := total
      word := by omega
      positive := by unfold reservedPages; omega
      used := ?_
      held := by simp [Session.initial]
      distinct := List.nodup_nil }
  intro page inside
  have tested := initPmm_test inside
  rw [total] at tested
  simpa [Session.initial] using congrArg (· = true) tested

theorem freeFrame_clear (clear : session.pmm.bitmap.test page = false) :
    freeFrame session.pmm (page * 4096) = session.pmm := by
  have index : page * 4096 / pageSize = page := by simp [pageSize]
  simp [freeFrame, index, clear]

namespace Consistent

variable (consistent : Consistent bytes reserved session)

include consistent

/-- The search of `alloc_frame` succeeds while the counter is positive. -/
theorem firstFree_exists (available : session.pmm.freePages ≠ 0) :
    ∃ page, firstFree session.pmm = some page := by
  cases found : firstFree session.pmm with
  | some page => exact ⟨page, rfl⟩
  | none =>
      have none_clear : session.pmm.bitmap.clearBits session.pmm.totalPages = ∅ := by
        rw [Finset.eq_empty_iff_forall_notMem]
        intro page member
        obtain ⟨inside, clear⟩ := Bitmap.mem_clearBits.mp member
        rw [firstFree_eq_none.mp found page inside] at clear
        cases clear
      rw [consistent.balanced.count, none_clear] at available
      exact absurd rfl available

/-- A clear page is neither reserved nor held, and its address is not `NULL`. -/
theorem clear_page (inside : page < session.pmm.totalPages)
    (clear : session.pmm.bitmap.test page = false) :
    reserved ≤ page ∧ page * 4096 ∉ session.held ∧ u32 (page * pageSize) = page * 4096 ∧
      page * 4096 ≠ 0 := by
  have unused : ¬ (page < reserved ∨ page * 4096 ∈ session.held) := by
    rw [← consistent.used page inside, clear]
    simp
  have positive := consistent.positive
  have word := consistent.word
  have total := consistent.totalPages
  refine ⟨by omega, by tauto, u32_of_lt ?_, by omega⟩
  simp only [pageSize]
  omega

theorem alloc_eq (available : session.pmm.freePages ≠ 0) :
    ∃ page, firstFree session.pmm = some page ∧
      allocFrame session.pmm = (take session.pmm page, page * 4096) ∧ page * 4096 ≠ 0 := by
  obtain ⟨page, found⟩ := consistent.firstFree_exists available
  obtain ⟨inside, clear, _⟩ := firstFree_eq_some.mp found
  obtain ⟨_, _, address, notNull⟩ := consistent.clear_page inside clear
  refine ⟨page, found, ?_, notNull⟩
  simp [allocFrame, consistent.initialized, available, found, address]

theorem take_step (inside : page < session.pmm.totalPages)
    (clear : session.pmm.bitmap.test page = false) :
    Consistent bytes reserved ⟨take session.pmm page, page * 4096 :: session.held⟩ := by
  obtain ⟨unreserved, unheld, _, _⟩ := consistent.clear_page inside clear
  refine
    { balanced := (consistent.balanced.take inside clear).1
      initialized := by simpa only [take_initialized] using consistent.initialized
      totalMemory := by simpa only [take_totalMemory] using consistent.totalMemory
      totalPages := by simpa only [take_totalPages] using consistent.totalPages
      word := consistent.word
      positive := consistent.positive
      used := ?_
      held := ?_
      distinct := List.nodup_cons.mpr ⟨unheld, consistent.distinct⟩ }
  · intro other below
    simp only [take_totalPages] at below
    simp only [take_bitmap, Bitmap.test_set, Bool.or_eq_true, decide_eq_true_eq, List.mem_cons,
      consistent.used other below]
    constructor
    · intro old
      cases old with
      | inl same => exact .inr (.inl (by rw [same]))
      | inr rest =>
          cases rest with
          | inl low => exact .inl low
          | inr kept => exact .inr (.inr kept)
    · intro new
      cases new with
      | inl low => exact .inr (.inl low)
      | inr rest =>
          cases rest with
          | inl same => exact .inl (by omega)
          | inr kept => exact .inr (.inr kept)
  · intro frame member
    simp only [take_totalPages]
    cases List.mem_cons.mp member with
    | inl same => exact ⟨page, same, unreserved, inside⟩
    | inr old => exact consistent.held frame old

theorem alloc_step : Consistent bytes reserved ⟨(allocFrame session.pmm).1,
    if (allocFrame session.pmm).2 = 0 then session.held
    else (allocFrame session.pmm).2 :: session.held⟩ := by
  by_cases exhausted : session.pmm.freePages = 0
  · have failed : allocFrame session.pmm = (session.pmm, 0) := by simp [allocFrame, exhausted]
    rw [failed]
    simpa using consistent
  · obtain ⟨page, found, result, notNull⟩ := consistent.alloc_eq exhausted
    obtain ⟨inside, clear, _⟩ := firstFree_eq_some.mp found
    rw [result]
    simp only [notNull, if_false]
    exact consistent.take_step inside clear

theorem free_step {frame : Nat} (member : frame ∈ session.held) :
    Consistent bytes reserved ⟨freeFrame session.pmm frame, session.held.erase frame⟩ := by
  obtain ⟨page, address, unreserved, inside⟩ := consistent.held frame member
  subst address
  have positive := consistent.positive
  have used : session.pmm.bitmap.test page = true :=
    (consistent.used page inside).mpr (.inr member)
  have result : freeFrame session.pmm (page * 4096) = give session.pmm page := by
    have index : page * 4096 / pageSize = page := by simp [pageSize]
    have notNull : page ≠ 0 := by omega
    simp [freeFrame, consistent.initialized, notNull, index, used, Nat.not_le.mpr inside]
  have gone : ∀ other, other * 4096 ∈ session.held.erase (page * 4096) ↔
      other ≠ page ∧ other * 4096 ∈ session.held := by
    intro other
    rw [consistent.distinct.mem_erase_iff]
    have addresses : other * 4096 ≠ page * 4096 ↔ other ≠ page := by omega
    rw [addresses]
  rw [result]
  refine
    { balanced := consistent.balanced.give inside used
      initialized := by simpa only [give_initialized] using consistent.initialized
      totalMemory := by simpa only [give_totalMemory] using consistent.totalMemory
      totalPages := by simpa only [give_totalPages] using consistent.totalPages
      word := consistent.word
      positive := positive
      used := ?_
      held := ?_
      distinct := consistent.distinct.erase _ }
  · intro other below
    simp only [give_totalPages] at below
    simp only [give_bitmap, Bitmap.test_clear, Bool.and_eq_true, decide_eq_true_eq, gone,
      consistent.used other below]
    constructor
    · intro old
      cases old.2 with
      | inl low => exact .inl low
      | inr kept => exact .inr ⟨old.1, kept⟩
    · intro new
      cases new with
      | inl low => exact ⟨by omega, .inl low⟩
      | inr kept => exact ⟨kept.1, .inr kept.2⟩
  · intro frame kept
    simp only [give_totalPages]
    exact consistent.held frame (List.mem_of_mem_erase kept)

theorem step (step : Step session next) : Consistent bytes reserved next := by
  cases step with
  | alloc result =>
      have kept := consistent.alloc_step
      rw [result] at kept
      exact kept
  | free frame member => exact consistent.free_step member
  | freeTwice page inside clear =>
      rw [freeFrame_clear clear]
      exact consistent

end Consistent

/-- The frame allocator is a set of used pages.  The frames that clients hold
are distinct pages of the memory outside the reserved ones, the bitmap is
exactly the reserved and the held pages, the counter is the number of clear
bits, and `alloc_frame` returns the lowest clear page, or `NULL` exactly when
the counter is zero. -/
theorem frames_refine_used_pages (contents : Bitmap) (totalMemoryKb : Nat) (session : Session)
    (small : totalMemoryKb < 2 ^ 22)
    (enough : reservedPages (totalMemoryKb * 1024 / 4096) ≤ totalMemoryKb * 1024 / 4096)
    (reached : Relation.ReflTransGen Step (Session.initial contents totalMemoryKb) session) :
    session.pmm.totalPages = totalMemoryKb * 1024 / 4096 ∧
      session.pmm.totalMemory = totalMemoryKb * 1024 ∧
      session.held.Nodup ∧
      (∀ frame ∈ session.held, 4096 ∣ frame ∧ frame < session.pmm.totalMemory ∧
        reservedPages session.pmm.totalPages ≤ frame / 4096) ∧
      (∀ page < session.pmm.totalPages, session.pmm.bitmap.test page = true ↔
        page < reservedPages session.pmm.totalPages ∨ page * 4096 ∈ session.held) ∧
      session.pmm.freePages = (session.pmm.bitmap.clearBits session.pmm.totalPages).card ∧
      ((allocFrame session.pmm).2 = 0 ↔ session.pmm.freePages = 0) ∧
      (session.pmm.freePages ≠ 0 → ∃ page, firstFree session.pmm = some page ∧
        IsLeast {page | page < session.pmm.totalPages ∧ session.pmm.bitmap.test page = false} page ∧
        (allocFrame session.pmm).2 = page * 4096) := by
  have consistent : Consistent (totalMemoryKb * 1024)
      (reservedPages (totalMemoryKb * 1024 / 4096)) session := by
    induction reached with
    | refl => exact initial_consistent small enough
    | tail _ taken ih => exact ih.step taken
  have total := consistent.totalPages
  have memory := consistent.totalMemory
  rw [← total] at consistent
  refine ⟨total, memory, consistent.distinct, ?_, consistent.used, consistent.balanced.count, ?_, ?_⟩
  · intro frame member
    obtain ⟨page, address, unreserved, inside⟩ := consistent.held frame member
    subst address
    refine ⟨⟨page, by omega⟩, by omega, ?_⟩
    rw [Nat.mul_div_cancel page (by decide)]
    exact unreserved
  · constructor
    · intro failed
      by_contra available
      obtain ⟨page, _, result, notNull⟩ := consistent.alloc_eq available
      rw [result] at failed
      exact notNull failed
    · intro exhausted
      simp [allocFrame, exhausted]
  · intro available
    obtain ⟨page, found, result, _⟩ := consistent.alloc_eq available
    obtain ⟨inside, clear, earlier⟩ := firstFree_eq_some.mp found
    refine ⟨page, found, ⟨⟨inside, clear⟩, fun other free => ?_⟩, by rw [result]⟩
    by_contra below
    have used := earlier other (by omega)
    rw [free.2] at used
    cases used

/-- Of 4 MB a client takes two frames and gives the first one back, which is
then the next one. -/
theorem frames_refine_used_pages_four_megabytes :
    ∃ session, Relation.ReflTransGen Step (Session.initial (fun _ => 0) 4096) session ∧
      session.held = [514 * 4096] ∧ (allocFrame session.pmm).2 = 513 * 4096 := by
  have total : (initPmm (fun _ => 0) 4096).totalPages = 1024 := initPmm_totalPages
  have reserved : reservedPages 1024 = 513 := by decide
  have start : Sequential (initPmm (fun _ => 0) 4096) 513 := by
    have booted := @initPmm_sequential (fun _ => 0) 4096 (by rw [total]; decide)
    rwa [total, reserved] at booted
  have first := start.allocFrame_eq (by rw [total]; decide)
  have second := (start.take (by rw [total]; decide)).allocFrame_eq (by rw [take_totalPages, total]; decide)
  have reached : Relation.ReflTransGen Step (Session.initial (fun _ => 0) 4096)
      ⟨freeFrame (take (take (initPmm (fun _ => 0) 4096) 513) 514) (513 * 4096), [514 * 4096]⟩ :=
    ((Relation.ReflTransGen.single (.alloc first)).tail (.alloc second)).tail
      (.free (513 * 4096) (by decide))
  obtain ⟨pages, _, _, _, used, free, _, lowest⟩ :=
    frames_refine_used_pages (fun _ => 0) 4096 _ (by decide) (by decide) reached
  refine ⟨_, reached, rfl, ?_⟩
  generalize freeFrame _ _ = pmm at pages used free lowest ⊢
  replace pages : pmm.totalPages = 1024 := pages
  simp only [pages, reserved] at used free lowest
  have clear : pmm.bitmap.test 513 = false :=
    Bool.eq_false_iff.mpr fun set => absurd ((used 513 (by decide)).mp set) (by decide)
  have available : pmm.freePages ≠ 0 := by
    rw [free]
    exact Finset.card_ne_zero_of_mem (Bitmap.mem_clearBits.mpr ⟨by decide, clear⟩)
  obtain ⟨page, _, ⟨⟨inside, unused⟩, least⟩, taken⟩ := lowest available
  have most : page ≤ 513 := least ⟨by decide, clear⟩
  have above : ¬page < 513 := fun low => by
    rw [(used page inside).mpr (.inl low)] at unused
    cases unused
  rw [taken, show page = 513 by omega]

end

end Helios.Pmm
