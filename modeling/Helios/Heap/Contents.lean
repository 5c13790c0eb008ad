import Helios.Heap.Canonical
import Helios.Strings.Move

namespace Helios.Heap

open Helios.Data Helios.Strings

/-! `krealloc` and `kcalloc`: what is in the memory they return. -/

/-- The pointer is the payload of an allocated block of the list. -/
def Allocated (heap : KernelHeap) (pointer : Nat) : Prop :=
  ∃ block, OnBlockList heap block ∧ isFree heap.memory block = false ∧ pointer = block + 16

/-- What `krealloc` of a live pointer promises when it returns one. -/
structure Resized (session : Session) (allocation : Allocation) (size : Nat) (after : KernelHeap)
    (pointer : Nat) : Prop where
  room : size ≤ capacity after pointer
  allocated : Allocated after pointer
  contents : ∀ index < min (capacity session.heap allocation.pointer) size,
    after.memory (pointer + index) = session.heap.memory (allocation.pointer + index)
  others : ∀ other ∈ session.live.erase allocation, Allocated after other.pointer ∧
    ∀ position, InPayload session.heap other position →
      after.memory position = session.heap.memory position
  released : pointer ≠ allocation.pointer → ¬ Allocated after allocation.pointer

section

variable {memory : Memory} {dest src len index : Nat} {value : UInt8}

theorem memset_succ : memset memory dest value (len + 1) =
    (memset memory dest value len).store8 (u32 (dest + len)) value := by
  simp only [memset, List.range_succ, List.foldl_append, List.foldl_cons, List.foldl_nil]

/-- `memcpy` moves upwards. -/
theorem memcpy_eq : memcpy memory dest src len =
    (List.range len).foldl (moveByte dest src) memory := rfl

theorem memset_confined (bound : dest + len ≤ 4294967296) :
    Memory.Confined dest (dest + len) memory (memset memory dest value len) := by
  induction len with
  | zero => exact .refl
  | succ len ih =>
      rw [memset_succ, u32_of_lt (by omega)]
      exact ((ih (by omega)).mono (Nat.le_refl _) (by omega)).store8 (by omega) (by omega)

theorem memcpy_confined (bound : dest + len ≤ 4294967296) :
    Memory.Confined dest (dest + len) memory (memcpy memory dest src len) := by
  rw [memcpy_eq]
  exact moveBytes_confined bound (by simp)

theorem memset_inside (bound : dest + len ≤ 4294967296) (inside : index < len) :
    memset memory dest value len (dest + index) = value := by
  induction len with
  | zero => omega
  | succ len ih =>
      rw [memset_succ, u32_of_lt (by omega)]
      by_cases last : index = len
      · subst last
        exact Memory.store8_same
      · rw [Memory.store8_other (by omega)]
        exact ih (by omega) (by omega)

/-- A copy to a disjoint range reads the bytes from before the copy. -/
theorem memcpy_inside (bound : dest + len ≤ 4294967296) (sourceBound : src + len ≤ 4294967296)
    (apart : src + len ≤ dest ∨ dest + len ≤ src) (inside : index < len) :
    memcpy memory dest src len (dest + index) = memory (src + index) := by
  have safe : (List.range len).Pairwise fun earlier later =>
      dest + earlier ≠ src + later ∧ earlier ≠ later :=
    List.pairwise_lt_range.imp_of_mem fun {earlier later} first second ordered => by
      have bound := List.mem_range.mp second
      omega
  rw [memcpy_eq]
  exact moveBytes_moved bound sourceBound (by simp) safe (by simpa using inside)

end

section

variable {session : Session} {blocks : List Block} {block : Block} {heap : KernelHeap}
variable {allocation : Allocation} {pointer : Nat}

/-- The allocated blocks are those behind the live pointers. -/
theorem Consistent.allocated_iff (consistent : Consistent session blocks) :
    Allocated session.heap pointer ↔ ∃ allocation ∈ session.live, allocation.pointer = pointer := by
  constructor
  · rintro ⟨address, listed, allocated, rfl⟩
    obtain ⟨block, member, rfl⟩ := consistent.heap.onBlockList_iff.mp listed
    have flag : block.free = false := by
      obtain ⟨pre, post, rfl⟩ := List.append_of_mem member
      rw [← consistent.heap.header.isFree_eq]
      exact allocated
    obtain ⟨allocation, live, backs⟩ := consistent.accounted block member flag
    exact ⟨allocation, live, backs.pointer⟩
  · rintro ⟨allocation, live, rfl⟩
    obtain ⟨block, member, backs⟩ := consistent.backed allocation live
    refine ⟨block.address, consistent.heap.onBlockList_iff.mpr ⟨block, member, rfl⟩, ?_,
      backs.pointer⟩
    obtain ⟨pre, post, rfl⟩ := List.append_of_mem member
    rw [consistent.heap.header.isFree_eq]
    exact backs.allocated

theorem Consistent.oldSize_eq (consistent : Consistent session blocks)
    (live : allocation ∈ session.live) :
    sub32 (blockSize session.heap.memory (sub32 allocation.pointer headerSize)) headerSize =
      capacity session.heap allocation.pointer := by
  obtain ⟨block, member, backs⟩ := consistent.backed allocation live
  have bounds := consistent.heap.blockBounds member
  have limit := consistent.heap.bounded
  have large := (consistent.heap.sizes block member).1
  have place : sub32 allocation.pointer headerSize = block.address := by
    unfold headerSize
    rw [backs.pointer, sub32_of_le (by omega) (by omega)]
    omega
  rw [consistent.heap.capacity_eq member backs, place]
  obtain ⟨pre, post, rfl⟩ := List.append_of_mem member
  unfold headerSize
  rw [consistent.heap.header.size, sub32_of_le (by omega) (by omega)]

end

section

variable {session : Session} {blocks pre post : List Block} {block : Block} {size : Nat}
variable {allocation other : Allocation}

/-- The heap of `krealloc` once it has copied the payload, before it frees the
old block. -/
def copied (session : Session) (allocation : Allocation) (size : Nat) (block : Block) :
    KernelHeap :=
  let heap := takeBlock session.heap (requestSize size) block.address
  { heap with
    memory := memcpy heap.memory (block.address + 16) allocation.pointer
      (capacity session.heap allocation.pointer) }

/-- A live allocation is apart from the free block that serves a request. -/
theorem Consistent.beside (consistent : Consistent session (pre ++ block :: post))
    (free : block.free = true) (live : allocation ∈ session.live) :
    ∃ item ∈ pre ++ post, Backs item allocation ∧ item ∈ pre ++ block :: post ∧
      (item.address + item.size ≤ block.address ∨ block.address + block.size ≤ item.address) := by
  obtain ⟨item, member, backs⟩ := consistent.backed allocation live
  have stays := (mem_cut_of_free free backs.allocated).mp member
  have different := (consistent.heap.mem_cut.mp stays).2
  exact ⟨item, stays, backs, member, consistent.heap.covers.apart member (by simp) different⟩

theorem taken_size_le (fits : Fits (requestSize size) block) :
    (taken (requestSize size) block).size ≤ block.size := by
  have enough := fits.2
  unfold taken
  dsimp only
  split <;> omega

section

variable (consistent : Consistent session (pre ++ block :: post)) (bound : size ≤ 0xFFFFFFE8)
variable (fits : Fits (requestSize size) block)
variable (grows : capacity session.heap allocation.pointer < size)

include consistent bound fits grows

theorem Consistent.copied_confined :
    Memory.Confined (block.address + 16) (block.address + (taken (requestSize size) block).size)
      (takeBlock session.heap (requestSize size) block.address).memory
      (copied session allocation size block).memory := by
  obtain ⟨served, backs⟩ := consistent.kmalloc_take bound fits
  have room := backs.room
  have bounds := served.heap.blockBounds ((mem_take fits.1 rfl _).mpr (.inr rfl))
  have limit := served.heap.bounded
  have place : (taken (requestSize size) block).address = block.address := rfl
  simp only at room
  exact (memcpy_confined (by omega)).mono (Nat.le_refl _) (by omega)

theorem Consistent.copied :
    Consistent ⟨Heap.copied session allocation size block,
      ⟨block.address + 16, size⟩ :: session.live⟩ (pre ++ carve (requestSize size) block ++ post) :=
  (consistent.kmalloc_take bound fits).1.confined ((mem_take fits.1 rfl _).mpr (.inr rfl))
    (consistent.copied_confined bound fits grows)

variable (live : allocation ∈ session.live)

include live

/-- The new payload starts with the bytes of the old one. -/
theorem Consistent.copied_fresh {index : Nat}
    (inside : index < capacity session.heap allocation.pointer) :
    (Heap.copied session allocation size block).memory (block.address + 16 + index) =
      session.heap.memory (allocation.pointer + index) := by
  have request := requestSize_eq bound
  obtain ⟨item, stays, backs, member, apart⟩ := consistent.beside fits.1 live
  have length := consistent.heap.capacity_eq member backs
  have bounds := consistent.heap.blockBounds member
  have blockBounds := consistent.heap.blockBounds (show block ∈ pre ++ block :: post by simp)
  have limit := consistent.heap.bounded
  have place := backs.pointer
  have enough := fits.2
  have kept : (takeBlock session.heap (requestSize size) block.address).memory
      (allocation.pointer + index) = session.heap.memory (allocation.pointer + index) :=
    takeBlock_other consistent.heap fits.1 (by omega) fits.2 stays (by omega) (by omega)
  rw [← kept]
  exact memcpy_inside (by omega) (by omega) (by omega) inside

omit live in
theorem Consistent.copied_other (otherLive : other ∈ session.live) {position : Nat}
    (inside : InPayload session.heap other position) :
    InPayload (Heap.copied session allocation size block) other position ∧
      (Heap.copied session allocation size block).memory position =
        session.heap.memory position := by
  have request := requestSize_eq bound
  obtain ⟨item, stays, backs, member, apart⟩ := consistent.beside fits.1 otherLive
  obtain ⟨lower, upper⟩ := (consistent.heap.inPayload_iff member backs).mp inside
  have copying := consistent.copied bound fits grows
  have shorter := taken_size_le fits
  refine ⟨(copying.heap.inPayload_iff ((mem_take fits.1 backs.allocated _).mpr (.inl member))
    backs).mpr ⟨lower, upper⟩, ?_⟩
  calc (Heap.copied session allocation size block).memory position
      = (takeBlock session.heap (requestSize size) block.address).memory position :=
        consistent.copied_confined bound fits grows position (by omega)
    _ = session.heap.memory position :=
        takeBlock_other consistent.heap fits.1 (by omega) fits.2 stays lower upper

theorem Consistent.copied_freed :
    ∃ after, Consistent ⟨kfree (Heap.copied session allocation size block) allocation.pointer,
      ⟨block.address + 16, size⟩ :: session.live.erase allocation⟩ after := by
  have copying := consistent.copied bound fits grows
  obtain ⟨after, freed⟩ := copying.kfree_step (List.mem_cons_of_mem _ live)
  have distinct : (⟨block.address + 16, size⟩ : Allocation) ≠ allocation := by
    have apart := (List.nodup_cons.mp copying.distinct).1
    rintro rfl
    exact apart (List.mem_map_of_mem live)
  rw [List.erase_cons_tail (by simpa using distinct)] at freed
  exact ⟨after, freed⟩

theorem Consistent.krealloc_grown :
    Resized session allocation size
      (kfree (Heap.copied session allocation size block) allocation.pointer)
      (block.address + 16) := by
  have copying := consistent.copied bound fits grows
  obtain ⟨after, freed⟩ := consistent.copied_freed bound fits grows live
  have distinct := List.nodup_cons.mp copying.distinct
  have oldLive : allocation ∈ (⟨block.address + 16, size⟩ : Allocation) :: session.live :=
    List.mem_cons_of_mem _ live
  have different : (⟨block.address + 16, size⟩ : Allocation) ≠ allocation := by
    rintro rfl
    exact distinct.1 (List.mem_map_of_mem live)
  have fresh : (⟨block.address + 16, size⟩ : Allocation) ∈
      ((⟨block.address + 16, size⟩ : Allocation) :: session.live).erase allocation :=
    (List.mem_erase_of_ne different).mpr List.mem_cons_self
  have room := (copying.payload List.mem_cons_self).2.2.2
  simp only at room
  refine ⟨(freed.payload List.mem_cons_self).2.2.2,
    freed.allocated_iff.mpr ⟨_, List.mem_cons_self, rfl⟩, ?_, ?_, fun _ => ?_⟩
  · intro index inside
    have old : index < capacity session.heap allocation.pointer := by omega
    have here : InPayload (Heap.copied session allocation size block)
        ⟨block.address + 16, size⟩ (block.address + 16 + index) :=
      ⟨by simp only; omega, by simp only; omega⟩
    exact (copying.kfree_frame oldLive fresh here).trans
      (consistent.copied_fresh bound fits grows live old)
  · intro other otherLive
    refine ⟨freed.allocated_iff.mpr ⟨other, List.mem_cons_of_mem _ otherLive, rfl⟩, ?_⟩
    intro position inside
    have member := List.mem_of_mem_erase otherLive
    obtain ⟨still, kept⟩ := consistent.copied_other bound fits grows member inside
    have otherInside : other ∈
        ((⟨block.address + 16, size⟩ : Allocation) :: session.live).erase allocation := by
      rw [List.erase_cons_tail (by simpa using different)]
      exact List.mem_cons_of_mem _ otherLive
    exact (copying.kfree_frame oldLive otherInside still).trans kept
  · intro allocated
    obtain ⟨another, anotherLive, same⟩ := freed.allocated_iff.mp allocated
    cases List.mem_cons.mp anotherLive with
    | inl new =>
        subst new
        exact distinct.1 (same ▸ List.mem_map_of_mem live)
    | inr old =>
        have permuted := ((List.perm_cons_erase live).map Allocation.pointer).nodup_iff.mp
          consistent.distinct
        rw [List.map_cons, List.nodup_cons] at permuted
        exact permuted.1 (same ▸ List.mem_map_of_mem old)

end

/-- `krealloc` to a size that the block already has changes nothing. -/
theorem Consistent.krealloc_fits {blocks : List Block} (consistent : Consistent session blocks)
    (live : allocation ∈ session.live) (fits : size ≤ capacity session.heap allocation.pointer) :
    Resized session allocation size session.heap allocation.pointer where
  room := fits
  allocated := consistent.allocated_iff.mpr ⟨allocation, live, rfl⟩
  contents _ _ := rfl
  others other otherLive :=
    ⟨consistent.allocated_iff.mpr ⟨other, List.mem_of_mem_erase otherLive, rfl⟩, fun _ _ => rfl⟩
  released moved := absurd rfl moved

/-- In every reachable state `krealloc` of a live pointer returns; either it
returns a block of the new size with the old contents and touches no other
allocation, or it returns `NULL` and changes nothing. -/
theorem krealloc_preserves_contents (reached : Reachable session) (live : allocation ∈ session.live)
    (positive : 1 ≤ size) (bound : size ≤ 0xFFFFFFE8) :
    ∃ after pointer, krealloc session.heap allocation.pointer size = some (after, pointer) ∧
      (pointer ≠ 0 → Resized session allocation size after pointer) ∧
      (pointer = 0 → after = session.heap ∧ Allocated after allocation.pointer) := by
  obtain ⟨blocks, consistent⟩ := reached.consistent
  have allocated := consistent.allocated_iff.mpr ⟨allocation, live, rfl⟩
  have notNull : allocation.pointer ≠ 0 := by
    obtain ⟨block, _, backs⟩ := consistent.backed allocation live
    rw [backs.pointer]
    omega
  simp only [krealloc, notNull, if_false, show size ≠ 0 by omega, consistent.oldSize_eq live]
  by_cases shrinks : size ≤ capacity session.heap allocation.pointer
  · exact ⟨session.heap, allocation.pointer, by rw [if_pos shrinks],
      fun _ => consistent.krealloc_fits live shrinks, fun null => absurd null notNull⟩
  · rw [if_neg shrinks]
    cases kmalloc_eq size consistent.heap with
    | inl failed =>
        refine ⟨session.heap, 0, by simp [failed.1], fun found => absurd rfl found,
          fun _ => ⟨rfl, allocated⟩⟩
    | inr served =>
        obtain ⟨pre, block, post, rfl, fits, _, result⟩ := served
        have moved : block.address + 16 ≠ 0 := Nat.succ_ne_zero _
        refine ⟨kfree (copied session allocation size block) allocation.pointer, block.address + 16,
          by simp only [result, moved, if_false, copied], fun _ => ?_, fun null => absurd null moved⟩
        exact consistent.krealloc_grown bound fits (by omega) live

theorem krealloc_preserves_contents_hundred :
    ∃ session, Reachable session ∧ session.live = [⟨0xD0000010, 100⟩] ∧
      ∃ after pointer, krealloc session.heap 0xD0000010 200 = some (after, pointer) ∧
        (pointer ≠ 0 → Resized session ⟨0xD0000010, 100⟩ 200 after pointer) := by
  obtain ⟨heap, reached⟩ := reachable_kmalloc_hundred
  have live : (⟨0xD0000010, 100⟩ : Allocation) ∈ [Allocation.mk 0xD0000010 100] := by simp
  obtain ⟨after, pointer, result, resized, _⟩ :=
    krealloc_preserves_contents reached live (show 1 ≤ 200 by decide) (by decide)
  exact ⟨_, reached, rfl, after, pointer, result, resized⟩

end

end Helios.Heap
