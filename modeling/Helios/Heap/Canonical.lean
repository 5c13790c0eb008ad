import Helios.Heap.FirstFit

namespace Helios.Heap

open Helios.Data

/-! The block list is determined by the allocated blocks, so two runs that leave
the same blocks allocated leave the same list, whichever merges they took. -/

/-- The two heaps have the same block list, with every field of its headers. -/
structure SameBlocks (left right : KernelHeap) : Prop where
  start : left.start = right.start
  listed : ∀ address, OnBlockList left address ↔ OnBlockList right address
  headers : ∀ address, OnBlockList left address →
    blockSize left.memory address = blockSize right.memory address ∧
      left.memory (address + 4) = right.memory (address + 4) ∧
      next left.memory address = next right.memory address ∧
      prev left.memory address = prev right.memory address

/-- `kfree` of each pointer in turn. -/
def kfreeAll (heap : KernelHeap) (order : List Allocation) : KernelHeap :=
  order.foldl (fun heap allocation => kfree heap allocation.pointer) heap

section

variable {heap other : KernelHeap} {blocks others pre post : List Block} {block : Block}
variable {session : Session} {allocation : Allocation}

theorem WellFormed.sameBlocks (valid : WellFormed heap blocks)
    (otherValid : WellFormed other blocks) : SameBlocks heap other where
  start := valid.head_eq_start.symm.trans otherValid.head_eq_start
  listed _ := valid.onBlockList_iff.trans otherValid.onBlockList_iff.symm
  headers address listed := by
    obtain ⟨block, member, rfl⟩ := valid.onBlockList_iff.mp listed
    obtain ⟨pre, post, rfl⟩ := List.append_of_mem member
    have header := valid.header
    have otherHeader := otherValid.header
    exact ⟨header.size.trans otherHeader.size.symm, header.flag.trans otherHeader.flag.symm,
      header.next.trans otherHeader.next.symm, header.prev.trans otherHeader.prev.symm⟩

/-- The allocated blocks determine the block list. -/
theorem WellFormed.unique (valid : WellFormed heap blocks) (otherValid : WellFormed other others)
    (start : heap.start = other.start) (size : heap.size = other.size)
    (same : ∀ block : Block, block.free = false → (block ∈ blocks ↔ block ∈ others)) :
    blocks = others := by
  have otherCovers := otherValid.covers
  rw [← start, ← size] at otherCovers
  refine valid.covers.eq_of_solid otherCovers valid.coalesced otherValid.coalesced ?_ ?_
  · rintro ⟨address, size, free⟩ ⟨otherAddress, otherSize, otherFree⟩ left right place extent
    simp only at left right place extent
    subst left right place extent
    rfl
  · intro block solid
    exact same block (by simpa using solid)

theorem WellFormed.same_of_allocated (valid : WellFormed heap blocks)
    (otherValid : WellFormed other others) (start : heap.start = other.start)
    (size : heap.size = other.size)
    (same : ∀ block : Block, block.free = false → (block ∈ blocks ↔ block ∈ others)) :
    SameBlocks heap other ∧ heap.used = other.used := by
  have lists := valid.unique otherValid start size same
  subst lists
  exact ⟨valid.sameBlocks otherValid, valid.used.trans otherValid.used.symm⟩

/-- No other block of the list has the address of a block. -/
theorem WellFormed.apart_cut (valid : WellFormed heap (pre ++ block :: post)) {item : Block}
    (member : item ∈ pre ++ post) : item.address ≠ block.address := by
  have apart := valid.covers.beside member
  have positive := valid.covers.positive (show block ∈ pre ++ block :: post by simp)
  have wide := valid.covers.positive (show item ∈ pre ++ block :: post by
    cases List.mem_append.mp member with
    | inl before => simp [before]
    | inr behind => simp [behind])
  omega

theorem WellFormed.mem_cut (valid : WellFormed heap (pre ++ block :: post)) {item : Block} :
    item ∈ pre ++ post ↔ item ∈ pre ++ block :: post ∧ item ≠ block := by
  constructor
  · intro member
    refine ⟨?_, fun same => valid.apart_cut member (congrArg Block.address same)⟩
    cases List.mem_append.mp member with
    | inl before => simp [before]
    | inr behind => simp [behind]
  · rintro ⟨member, different⟩
    simpa [different] using member

/-- `kfree` of an allocated block leaves exactly the other ones allocated. -/
theorem WellFormed.kfree_exists (valid : WellFormed heap blocks) (member : block ∈ blocks)
    (allocated : block.free = false) :
    ∃ after, WellFormed (kfree heap (block.address + 16)) after ∧
      ∀ item : Block, item.free = false → (item ∈ after ↔ item ∈ blocks ∧ item ≠ block) := by
  obtain ⟨pre, post, rfl⟩ := List.append_of_mem member
  refine ⟨_, kfree_wellFormed valid allocated, fun item solid => ?_⟩
  rw [mem_release solid]
  exact valid.mem_cut

/-- Two allocated blocks may be freed in either order. -/
theorem WellFormed.kfree_comm {second : Block} (valid : WellFormed heap blocks)
    (member : block ∈ blocks) (secondMember : second ∈ blocks) (allocated : block.free = false)
    (secondAllocated : second.free = false) (different : block ≠ second) :
    SameBlocks (kfree (kfree heap (block.address + 16)) (second.address + 16))
        (kfree (kfree heap (second.address + 16)) (block.address + 16)) ∧
      (kfree (kfree heap (block.address + 16)) (second.address + 16)).used =
        (kfree (kfree heap (second.address + 16)) (block.address + 16)).used := by
  obtain ⟨left, leftValid, leftMem⟩ := valid.kfree_exists member allocated
  obtain ⟨right, rightValid, rightMem⟩ := valid.kfree_exists secondMember secondAllocated
  have inLeft : second ∈ left := (leftMem second secondAllocated).mpr ⟨secondMember, different.symm⟩
  have inRight : block ∈ right := (rightMem block allocated).mpr ⟨member, different⟩
  obtain ⟨_, bothValid, bothMem⟩ := leftValid.kfree_exists inLeft secondAllocated
  obtain ⟨_, otherValid, otherMem⟩ := rightValid.kfree_exists inRight allocated
  refine bothValid.same_of_allocated otherValid (by simp) (by simp) fun item solid => ?_
  rw [bothMem item solid, otherMem item solid, leftMem item solid, rightMem item solid]
  tauto

/-- Freeing live allocations one after the other keeps the session consistent. -/
theorem Consistent.kfreeAll (order : List Allocation) (consistent : Consistent session blocks)
    (all : order.Perm session.live) :
    ∃ after, Consistent ⟨kfreeAll session.heap order, []⟩ after := by
  induction order generalizing session blocks with
  | nil =>
      obtain ⟨heap, live⟩ := session
      have none : live = [] := all.nil_eq.symm
      subst none
      exact ⟨blocks, consistent⟩
  | cons allocation rest ih =>
      have live : allocation ∈ session.live := all.mem_iff.mp (by simp)
      obtain ⟨middle, freed⟩ := consistent.kfree_step live
      have remaining : rest.Perm (session.live.erase allocation) := by
        simpa using all.erase allocation
      exact ih freed remaining

@[simp] theorem kfreeAll_extent (heap : KernelHeap) (order : List Allocation) :
    (Heap.kfreeAll heap order).start = heap.start ∧ (Heap.kfreeAll heap order).size = heap.size := by
  induction order generalizing heap with
  | nil => exact ⟨rfl, rfl⟩
  | cons allocation rest ih => simpa [Heap.kfreeAll] using ih (kfree heap allocation.pointer)

/-- A well-formed heap without allocated blocks is one free block. -/
theorem WellFormed.eq_single (valid : WellFormed heap blocks)
    (allFree : ∀ block ∈ blocks, block.free = true) : blocks = [⟨heap.start, heap.size, true⟩] := by
  have covers : Covers heap.start [⟨heap.start, heap.size, true⟩] (heap.start + heap.size) :=
    ⟨rfl, valid.sizePositive, rfl⟩
  refine valid.covers.eq_of_solid covers valid.coalesced (.singleton _) ?_ ?_
  · rintro ⟨address, size, free⟩ ⟨otherAddress, otherSize, otherFree⟩ left right place extent
    simp only at left right place extent
    subst left right place extent
    rfl
  · intro block solid
    constructor
    · intro member
      exact absurd (allFree block member) solid
    · intro member
      rw [List.mem_singleton.mp member] at solid
      exact absurd rfl solid

/-- In every reachable state two live pointers may be freed in either order, and
freeing all of them in any order leaves the one free block of the whole heap. -/
theorem kfree_commutes (reached : Reachable session) :
    (∀ first ∈ session.live, ∀ second ∈ session.live, first.pointer ≠ second.pointer →
      SameBlocks (kfree (kfree session.heap first.pointer) second.pointer)
          (kfree (kfree session.heap second.pointer) first.pointer) ∧
        (kfree (kfree session.heap first.pointer) second.pointer).used =
          (kfree (kfree session.heap second.pointer) first.pointer).used) ∧
    ∀ order : List Allocation, order.Perm session.live →
      (Heap.kfreeAll session.heap order).used = 16 ∧
        (∀ address, OnBlockList (Heap.kfreeAll session.heap order) address ↔
          address = session.heap.start) ∧
        BlockList (Heap.kfreeAll session.heap order).memory
          [⟨session.heap.start, session.heap.size, true⟩] := by
  obtain ⟨blocks, consistent⟩ := reached.consistent
  constructor
  · intro first live second secondLive different
    obtain ⟨block, member, backs⟩ := consistent.backed first live
    obtain ⟨other, otherMember, otherBacks⟩ := consistent.backed second secondLive
    have apart : block ≠ other := by
      rintro rfl
      exact different (backs.pointer.trans otherBacks.pointer.symm)
    rw [backs.pointer, otherBacks.pointer]
    exact consistent.heap.kfree_comm member otherMember backs.allocated otherBacks.allocated apart
  · intro order all
    obtain ⟨after, empty⟩ := consistent.kfreeAll order all
    have allFree : ∀ block ∈ after, block.free = true := by
      intro block member
      cases free : block.free with
      | true => rfl
      | false =>
          obtain ⟨allocation, live, _⟩ := empty.accounted block member free
          simp at live
    have single := empty.heap.eq_single allFree
    obtain ⟨start, size⟩ := kfreeAll_extent session.heap order
    simp only [start, size] at single
    subst single
    refine ⟨by simpa [allocatedBytes] using empty.heap.used, fun address => ?_, empty.heap.linked⟩
    rw [empty.heap.onBlockList_iff]
    simp [eq_comm]

theorem reachable_two_hundreds :
    ∃ heap, Reachable ⟨heap, [⟨0xD0000088, 100⟩, ⟨0xD0000010, 100⟩]⟩ := by
  have request : requestSize 100 = 120 := requestSize_eq (by decide)
  have initial := initHeap_wellFormed (fun _ => 0) 0 0
  obtain ⟨heap, served⟩ := initial_kmalloc (fun _ => 0) 0 0 100 (by decide)
  have first := @Step.kmalloc (Session.initial (fun _ => 0) 0 0) heap 0xD0000010 100 (by decide) served
  have taken : WellFormed heap [⟨0xD0000000, 120, false⟩, ⟨0xD0000078, 0xFFFFF88, true⟩] := by
    cases kmalloc_eq 100 initial with
    | inl failed => exact absurd ⟨rfl, by rw [request]; decide⟩ (failed.2 _ List.mem_cons_self)
    | inr found =>
        obtain ⟨pre, block, post, shape, fits, _, result⟩ := found
        have member : block ∈ [Block.mk 0xD0000000 0x10000000 true] := by
          rw [shape]
          simp
        have same := List.mem_singleton.mp member
        subst same
        rw [result] at served
        obtain ⟨rfl, _⟩ := Prod.mk.inj (Option.some.inj served)
        rw [request]
        have cut : WellFormed (initHeap (fun _ => 0) 0 0) ([] ++ ⟨0xD0000000, 0x10000000, true⟩ :: []) :=
          initial
        exact takeBlock_wellFormed cut rfl (by decide) (by decide) (by decide)
  cases kmalloc_eq 100 taken with
  | inl failed =>
      exact absurd ⟨rfl, by rw [request]; decide⟩ (failed.2 ⟨0xD0000078, 0xFFFFF88, true⟩ (by simp))
  | inr found =>
      obtain ⟨pre, block, post, shape, fits, _, result⟩ := found
      have member : block ∈ [Block.mk 0xD0000000 120 false, ⟨0xD0000078, 0xFFFFF88, true⟩] := by
        rw [shape]
        simp
      have same : block = ⟨0xD0000078, 0xFFFFF88, true⟩ := by
        simp only [List.mem_cons, List.not_mem_nil, or_false] at member
        cases member with
        | inl allocated =>
            rw [allocated] at fits
            cases fits.1
        | inr free => exact free
      subst same
      have second := @Step.kmalloc ⟨heap, [⟨0xD0000010, 100⟩]⟩ _ 0xD0000088 100 (by decide) result
      exact ⟨_, _, _, _, (Relation.ReflTransGen.single first).tail second⟩

theorem kfree_commutes_two_hundreds :
    ∃ session, Reachable session ∧ session.live = [⟨0xD0000088, 100⟩, ⟨0xD0000010, 100⟩] ∧
      SameBlocks (kfree (kfree session.heap 0xD0000088) 0xD0000010)
        (kfree (kfree session.heap 0xD0000010) 0xD0000088) := by
  obtain ⟨heap, reached⟩ := reachable_two_hundreds
  obtain ⟨commute, _⟩ := kfree_commutes reached
  exact ⟨_, reached, rfl, (commute ⟨0xD0000088, 100⟩ (by simp) ⟨0xD0000010, 100⟩ (by simp)
    (by decide)).1⟩

/-- In every reachable state an immediate `kfree` of what `kmalloc` returned
restores the block list and the `used` counter. -/
theorem kfree_undoes_kmalloc (reached : Reachable session) {after : KernelHeap} {pointer : Nat}
    (size : Nat) (bound : size ≤ 0xFFFFFFE8)
    (result : kmalloc session.heap size = some (after, pointer)) :
    SameBlocks (kfree after pointer) session.heap ∧
      (kfree after pointer).used = session.heap.used := by
  obtain ⟨blocks, consistent⟩ := reached.consistent
  have valid := consistent.heap
  have request := requestSize_eq bound
  cases kmalloc_eq size valid with
  | inl failed =>
      rw [failed.1] at result
      obtain ⟨rfl, rfl⟩ := Prod.mk.inj (Option.some.inj result)
      exact ⟨valid.sameBlocks valid, rfl⟩
  | inr served =>
      obtain ⟨pre, block, post, rfl, fits, _, found⟩ := served
      rw [found] at result
      obtain ⟨rfl, rfl⟩ := Prod.mk.inj (Option.some.inj result)
      have served := takeBlock_wellFormed valid fits.1 (by omega) (by omega) fits.2
      obtain ⟨_, freed, members⟩ := served.kfree_exists ((mem_take fits.1 rfl _).mpr (.inr rfl)) rfl
      refine freed.same_of_allocated valid (by simp) (by simp) fun item solid => ?_
      rw [members item solid, mem_take fits.1 solid]
      have outside : item ∈ pre ++ block :: post → item ≠ Heap.taken (requestSize size) block := by
        rw [mem_cut_of_free fits.1 solid]
        exact fun member same => valid.apart_cut member (by rw [same, Heap.taken])
      tauto

theorem kfree_undoes_kmalloc_initial :
    ∃ after pointer, kmalloc (Session.initial (fun _ => 0) 0 0).heap 100 = some (after, pointer) ∧
      (kfree after pointer).used = 16 := by
  obtain ⟨heap, served⟩ := initial_kmalloc (fun _ => 0) 0 0 100 (by decide)
  have reached : Reachable (Session.initial (fun _ => 0) 0 0) := ⟨_, _, _, .refl⟩
  exact ⟨heap, _, served, (kfree_undoes_kmalloc reached 100 (by decide) served).2⟩

end

end Helios.Heap
