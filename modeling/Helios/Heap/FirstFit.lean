import Helios.Data.Gaps
import Helios.Heap.Session

namespace Helios.Heap

open Helios.Data

/-! The list search of `kmalloc` seen as a search of the address range: because
free neighbours are always merged, an entry that fits exists whenever the heap
has enough consecutive bytes outside its allocated blocks. -/

/-- The byte lies in an allocated block, header included. -/
def Occupied (heap : KernelHeap) (position : Nat) : Prop :=
  ∃ block, OnBlockList heap block ∧ isFree heap.memory block = false ∧
    block ≤ position ∧ position < block + blockSize heap.memory block

/-- `[low, high)` is a range of the heap outside its allocated blocks. -/
structure FreeRange (heap : KernelHeap) (low high : Nat) : Prop where
  lower : heap.start ≤ low
  positive : low < high
  upper : high ≤ heap.start + heap.size
  unoccupied : ∀ position, low ≤ position → position < high → ¬ Occupied heap position

/-- A free range that no other one extends. -/
structure MaximalFree (heap : KernelHeap) (low high : Nat) : Prop where
  free : FreeRange heap low high
  maximal : ∀ left right, left ≤ low → high ≤ right → FreeRange heap left right →
    left = low ∧ right = high

section

variable {heap : KernelHeap} {blocks : List Block} {low high position : Nat}
variable {session : Session}

theorem WellFormed.coalesced (valid : WellFormed heap blocks) :
    Coalesced (fun block : Block => block.free = true) blocks :=
  valid.separated

theorem WellFormed.occupied_iff (valid : WellFormed heap blocks) :
    Occupied heap position ↔ ∃ block ∈ blocks, block.free = false ∧
      block.address ≤ position ∧ position < block.address + block.size := by
  constructor
  · rintro ⟨address, listed, allocated, lower, upper⟩
    obtain ⟨block, member, rfl⟩ := valid.onBlockList_iff.mp listed
    obtain ⟨pre, post, rfl⟩ := List.append_of_mem member
    rw [valid.header.isFree_eq] at allocated
    rw [valid.header.size] at upper
    exact ⟨block, member, allocated, lower, upper⟩
  · rintro ⟨block, member, allocated, lower, upper⟩
    have listed := valid.onBlockList_iff.mpr ⟨block, member, rfl⟩
    obtain ⟨pre, post, rfl⟩ := List.append_of_mem member
    refine ⟨block.address, listed, ?_, lower, ?_⟩
    · rw [valid.header.isFree_eq]
      exact allocated
    · rw [valid.header.size]
      exact upper

theorem WellFormed.unoccupied_iff (valid : WellFormed heap blocks) (positive : low < high) :
    (∀ position, low ≤ position → position < high → ¬ Occupied heap position) ↔
      Unoccupied Block.address Block.size (fun block => block.free = true) blocks low high := by
  constructor
  · intro unoccupied block member solid
    by_contra overlap
    have wide := valid.covers.positive member
    refine unoccupied (max low block.address) (by omega) (by omega) (valid.occupied_iff.mpr ?_)
    exact ⟨block, member, by simpa using solid, by omega, by omega⟩
  · intro unoccupied position lower upper occupied
    obtain ⟨block, member, allocated, left, right⟩ := valid.occupied_iff.mp occupied
    have outside := unoccupied block member (by simp [allocated])
    omega

/-- The free ranges are the ranges inside one free block. -/
theorem WellFormed.freeRange_iff (valid : WellFormed heap blocks) :
    FreeRange heap low high ↔ low < high ∧ ∃ block ∈ blocks, block.free = true ∧
      block.address ≤ low ∧ high ≤ block.address + block.size := by
  constructor
  · intro range
    refine ⟨range.positive, ?_⟩
    have unoccupied := (valid.unoccupied_iff range.positive).mp range.unoccupied
    exact (valid.covers.unoccupied_iff valid.coalesced range.lower range.positive
      range.upper).mp unoccupied
  · rintro ⟨positive, block, member, free, left, right⟩
    have bounds := valid.blockBounds member
    refine ⟨by omega, positive, by omega, (valid.unoccupied_iff positive).mpr ?_⟩
    exact (valid.covers.unoccupied_iff valid.coalesced (by omega) positive (by omega)).mpr
      ⟨block, member, free, left, right⟩

/-- The maximal free ranges are the free blocks. -/
theorem WellFormed.maximalFree_iff (valid : WellFormed heap blocks) :
    MaximalFree heap low high ↔ ∃ block ∈ blocks, block.free = true ∧
      block.address = low ∧ block.address + block.size = high := by
  constructor
  · rintro ⟨range, maximal⟩
    obtain ⟨positive, block, member, free, left, right⟩ := valid.freeRange_iff.mp range
    have whole : FreeRange heap block.address (block.address + block.size) :=
      valid.freeRange_iff.mpr ⟨by omega, block, member, free, Nat.le_refl _, Nat.le_refl _⟩
    obtain ⟨begins, ends⟩ := maximal _ _ left right whole
    exact ⟨block, member, free, begins, ends⟩
  · rintro ⟨block, member, free, rfl, rfl⟩
    have wide := valid.covers.positive member
    refine ⟨valid.freeRange_iff.mpr ⟨by omega, block, member, free, Nat.le_refl _, Nat.le_refl _⟩,
      ?_⟩
    intro left right begins ends range
    obtain ⟨_, other, otherMember, _, otherLeft, otherRight⟩ := valid.freeRange_iff.mp range
    have same : block = other := by
      by_contra different
      have apart := valid.covers.apart member otherMember different
      omega
    subst same
    omega

theorem WellFormed.freeRange_of_fits (valid : WellFormed heap blocks) {block : Block}
    {request : Nat} (positive : 0 < request) (member : block ∈ blocks)
    (fits : Fits request block) : FreeRange heap block.address (block.address + request) :=
  valid.freeRange_iff.mpr ⟨by omega, block, member, fits.1, Nat.le_refl _, by
    have := fits.2
    omega⟩

theorem WellFormed.fits_of_freeRange (valid : WellFormed heap blocks) {request : Nat}
    (range : FreeRange heap low (low + request)) : ∃ block ∈ blocks, Fits request block := by
  obtain ⟨_, block, member, free, left, right⟩ := valid.freeRange_iff.mp range
  exact ⟨block, member, free, by omega⟩

/-- In every reachable state `kmalloc` returns `NULL`, with the heap unchanged,
exactly when no range of the heap outside its allocated blocks is long enough;
otherwise it returns the payload of the lowest long enough maximal range. -/
theorem kmalloc_complete (reached : Reachable session) (size : Nat) (bound : size ≤ 0xFFFFFFE8) :
    ∃ after pointer, kmalloc session.heap size = some (after, pointer) ∧
      (pointer = 0 ↔ ¬ ∃ low, FreeRange session.heap low (low + ((size + 7) / 8 * 8 + 16))) ∧
      (pointer = 0 → after = session.heap) ∧
      (pointer ≠ 0 → ∃ low high, MaximalFree session.heap low high ∧
        low + ((size + 7) / 8 * 8 + 16) ≤ high ∧ pointer = low + 16 ∧
        ∀ left right, MaximalFree session.heap left right →
          left + ((size + 7) / 8 * 8 + 16) ≤ right → low ≤ left) := by
  obtain ⟨blocks, consistent⟩ := reached.consistent
  have valid := consistent.heap
  have request := requestSize_eq bound
  have outcome := kmalloc_eq size valid
  rw [request] at outcome
  cases outcome with
  | inl failed =>
      obtain ⟨result, unfit⟩ := failed
      refine ⟨session.heap, 0, result, ?_, fun _ => rfl, fun found => absurd rfl found⟩
      refine ⟨fun _ => ?_, fun _ => rfl⟩
      rintro ⟨low, range⟩
      obtain ⟨block, member, fits⟩ := valid.fits_of_freeRange range
      exact unfit block member fits
  | inr served =>
      obtain ⟨pre, block, post, rfl, fits, earlier, result⟩ := served
      have member : block ∈ pre ++ block :: post := by simp
      have enough := fits.2
      refine ⟨_, _, result, ?_, fun null => by omega, fun _ => ?_⟩
      · refine ⟨fun null => by omega, fun none => absurd ⟨block.address, ?_⟩ none⟩
        exact valid.freeRange_of_fits (by omega) member fits
      · refine ⟨block.address, block.address + block.size,
          valid.maximalFree_iff.mpr ⟨block, member, fits.1, rfl, rfl⟩, by omega, rfl, ?_⟩
        intro left right maximal wide
        obtain ⟨other, otherMember, free, rfl, rfl⟩ := valid.maximalFree_iff.mp maximal
        obtain ⟨before, behind⟩ := valid.covers.around
        cases List.mem_append.mp otherMember with
        | inl inFront => exact absurd ⟨free, by omega⟩ (earlier other inFront)
        | inr rest =>
            cases List.mem_cons.mp rest with
            | inl same => exact Nat.le_of_eq (congrArg Block.address same.symm)
            | inr later =>
                have ordered := (behind other later).1
                omega

theorem kmalloc_complete_initial :
    ∃ after pointer, kmalloc (Session.initial (fun _ => 0) 0 0).heap 100 = some (after, pointer) ∧
      pointer ≠ 0 := by
  have reached : Reachable (Session.initial (fun _ => 0) 0 0) := ⟨_, _, _, .refl⟩
  obtain ⟨after, pointer, result, null, _⟩ := kmalloc_complete reached 100 (by decide)
  refine ⟨after, pointer, result, fun none => null.mp none ⟨0xD0000000, ?_⟩⟩
  have valid := initHeap_wellFormed (fun _ => 0) 0 0
  exact valid.freeRange_of_fits (by decide) List.mem_cons_self ⟨rfl, by decide⟩

end

end Helios.Heap
