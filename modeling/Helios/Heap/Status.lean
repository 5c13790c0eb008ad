import Helios.Heap.Session

namespace Helios.Heap

open Helios.Data

/-! The figures of `show_heap_status`.

The function prints them on the screen between fixed texts, which are left out. -/

/-- One line of the list of blocks. -/
structure BlockLine where
  address : Nat
  stop : Nat
  size : Nat
  free : Bool
deriving Repr, DecidableEq

structure HeapStatus where
  start : Nat
  sizeKb : Nat
  usedKb : Nat
  usedPercent : Nat
  freeKb : Nat
  lines : List BlockLine
  blockCount : Nat
  freeBlocks : Nat
deriving Repr, DecidableEq

/-- The loop over the blocks; as for `kmalloc`, `none` is a walk that never
ends. -/
def blockLines (memory : Memory) : Nat → Nat → Option (List BlockLine)
  | 0, _ => none
  | steps + 1, block =>
      if block = 0 then some []
      else
        (blockLines memory steps (next memory block)).map fun lines =>
          ⟨block, u32 (block + blockSize memory block), blockSize memory block,
            isFree memory block⟩ :: lines

def showHeapStatus (heap : KernelHeap) : Option HeapStatus :=
  (blockLines heap.memory 4294967296 heap.start).map fun lines =>
    { start := heap.start
      sizeKb := heap.size / 1024
      usedKb := heap.used / 1024
      usedPercent := u32 (heap.used * 100) / heap.size
      freeKb := sub32 heap.size heap.used / 1024
      lines
      blockCount := u32 lines.length
      freeBlocks := u32 (lines.countP BlockLine.free) }

/-- The figures are the ones of unbounded arithmetic. -/
structure Exact (heap : KernelHeap) (status : HeapStatus) : Prop where
  fits : heap.used ≤ heap.size
  product : heap.used * 100 < 4294967296
  percent : status.usedPercent = 100 * heap.used / heap.size
  free : status.freeKb = (heap.size - heap.used) / 1024

/-- Bytes in the blocks of the live allocations, headers included. -/
def liveBytes (session : Session) : Nat :=
  (session.live.map fun allocation =>
    capacity session.heap allocation.pointer + headerSize).sum

section

variable {session next : Session} {heap after : KernelHeap} {blocks pre post : List Block}
variable {allocation : Allocation}

def Block.line (block : Block) : BlockLine :=
  ⟨block.address, block.address + block.size, block.size, block.free⟩

theorem WellFormed.blockLines_eq {steps : Nat} (valid : WellFormed heap (pre ++ post))
    (enough : post.length < steps) :
    blockLines heap.memory steps (headAddress Block.address post 0) =
      some (post.map Block.line) := by
  induction post generalizing pre steps with
  | nil =>
      obtain ⟨steps, rfl⟩ := Nat.exists_eq_succ_of_ne_zero (Nat.ne_zero_of_lt enough)
      rfl
  | cons first rest ih =>
      obtain ⟨steps, rfl⟩ := Nat.exists_eq_succ_of_ne_zero (Nat.ne_zero_of_lt enough)
      have header := valid.header
      have bounds := valid.blockBounds List.mem_append_cons_self
      have limit := valid.bounded
      have positive := valid.startPositive
      have nonzero : first.address ≠ 0 := by omega
      have behind : WellFormed heap ((pre ++ [first]) ++ rest) := by simpa using valid
      have tail := ih behind (by simpa using enough)
      have stop : u32 (first.address + first.size) = first.address + first.size :=
        u32_of_lt (by omega)
      rw [headAddress, blockLines, if_neg nonzero, header.next, header.size, header.isFree_eq,
        tail, stop]
      rfl

theorem kmallocFrom_extent {steps size current pointer : Nat}
    (result : kmallocFrom steps heap size current = some (after, pointer)) :
    after.start = heap.start ∧ after.size = heap.size := by
  induction steps generalizing current with
  | zero => simp [kmallocFrom] at result
  | succ steps ih =>
      rw [kmallocFrom] at result
      split_ifs at result
      · obtain ⟨same, _⟩ := Prod.mk.inj (Option.some.inj result)
        rw [← same]
        exact ⟨rfl, rfl⟩
      · obtain ⟨same, _⟩ := Prod.mk.inj (Option.some.inj result)
        rw [← same]
        exact ⟨takeBlock_start heap size current, takeBlock_size heap size current⟩
      · exact ih result

/-- The heap stays where `init_kheap` put it. -/
theorem Reachable.extent (reached : Reachable session) :
    session.heap.start = 0xD0000000 ∧ session.heap.size = 0x10000000 := by
  obtain ⟨memory, start, size, run⟩ := reached
  induction run with
  | refl => exact ⟨rfl, rfl⟩
  | tail _ step ih =>
      cases step with
      | kmalloc size bound result =>
          unfold kmalloc at result
          obtain ⟨sameStart, sameSize⟩ := kmallocFrom_extent result
          exact ⟨sameStart.trans ih.1, sameSize.trans ih.2⟩
      | kfree allocation live =>
          obtain ⟨sameStart, sameSize⟩ := kfree_extent _ allocation.pointer
          exact ⟨sameStart.trans ih.1, sameSize.trans ih.2⟩
      | write allocation live position byte inside => exact ih

theorem covers_addresses_nodup {start stop : Nat} (covers : Covers start blocks stop) :
    (blocks.map Block.address).Nodup := by
  induction blocks generalizing start with
  | nil => exact .nil
  | cons first rest ih =>
      obtain ⟨place, positive, remaining⟩ := covers
      refine List.nodup_cons.mpr ⟨fun repeated => ?_, ih remaining⟩
      obtain ⟨block, member, same⟩ := List.mem_map.mp repeated
      have behind := remaining.bounds member
      omega

theorem allocatedBytes_eq_sum (blocks : List Block) :
    allocatedBytes blocks = ((blocks.filter fun block => !block.free).map Block.size).sum := by
  induction blocks with
  | nil => rfl
  | cons first rest ih =>
      rw [allocatedBytes, ih]
      cases free : first.free <;> simp [free]

/-- The live pointers are the payloads of the allocated blocks, in some order. -/
theorem Consistent.pointers_perm (consistent : Consistent session blocks) :
    (session.live.map Allocation.pointer).Perm
      ((blocks.filter fun block => !block.free).map fun block => block.address + headerSize) := by
  have payloads : ((blocks.filter fun block => !block.free).map
      fun block => block.address + headerSize).Nodup := by
    have addresses : ((blocks.filter fun block => !block.free).map Block.address).Nodup :=
      (covers_addresses_nodup consistent.heap.covers).sublist (List.filter_sublist.map _)
    have shifted := addresses.map (add_left_injective headerSize)
    rwa [List.map_map] at shifted
  rw [List.perm_ext_iff_of_nodup consistent.distinct payloads]
  intro pointer
  simp only [List.mem_map, List.mem_filter, Bool.not_eq_true']
  constructor
  · rintro ⟨allocation, live, rfl⟩
    obtain ⟨block, member, backs⟩ := consistent.backed allocation live
    exact ⟨block, ⟨member, backs.allocated⟩, backs.pointer.symm⟩
  · rintro ⟨block, ⟨member, allocated⟩, rfl⟩
    obtain ⟨allocation, live, backs⟩ := consistent.accounted block member allocated
    exact ⟨allocation, live, backs.pointer⟩

theorem Consistent.liveBytes_eq (consistent : Consistent session blocks) :
    liveBytes session = allocatedBytes blocks := by
  have moved := (consistent.pointers_perm.map fun pointer =>
    capacity session.heap pointer + headerSize).sum_eq
  simp only [List.map_map] at moved
  refine moved.trans ?_
  rw [allocatedBytes_eq_sum]
  congr 1
  refine List.map_congr_left fun block member => ?_
  obtain ⟨inside, allocated⟩ := List.mem_filter.mp member
  have taken : block.free = false := by simpa using allocated
  obtain ⟨allocation, _, backs⟩ := consistent.accounted block inside taken
  have room := (consistent.heap.sizes block inside).1
  have payload := consistent.heap.capacity_eq inside backs
  rw [backs.pointer] at payload
  show capacity session.heap (block.address + 16) + 16 = block.size
  omega

theorem WellFormed.showHeapStatus_eq (valid : WellFormed heap blocks) :
    showHeapStatus heap = some
      { start := heap.start
        sizeKb := heap.size / 1024
        usedKb := heap.used / 1024
        usedPercent := u32 (heap.used * 100) / heap.size
        freeKb := sub32 heap.size heap.used / 1024
        lines := blocks.map Block.line
        blockCount := u32 (blocks.map Block.line).length
        freeBlocks := u32 ((blocks.map Block.line).countP BlockLine.free) } := by
  have listed : blockLines heap.memory 4294967296 heap.start = some (blocks.map Block.line) := by
    rw [← valid.head_eq_start]
    exact WellFormed.blockLines_eq (show WellFormed heap ([] ++ blocks) from valid)
      valid.length_lt
  rw [showHeapStatus, listed]
  rfl

/-- On every reachable heap `show_heap_status` lists the blocks, and it prints
the figures of the heap if and only if the blocks of the live allocations take
42949656 bytes at most: together with the 16 bytes the counter starts with,
a hundred times that is the largest multiple below 2^32. -/
theorem heap_status_exact_iff (reached : Reachable session) :
    ∃ status, showHeapStatus session.heap = some status ∧
      (Exact session.heap status ↔ liveBytes session ≤ 42949656) := by
  obtain ⟨blocks, consistent⟩ := reached.consistent
  have valid := consistent.heap
  have size := reached.extent.2
  have used := valid.used
  refine ⟨_, valid.showHeapStatus_eq, ?_⟩
  rw [consistent.liveBytes_eq]
  constructor
  · intro exact
    have product := exact.product
    omega
  · intro room
    refine ⟨by omega, by omega, ?_, ?_⟩
    · show u32 (session.heap.used * 100) / session.heap.size = _
      rw [u32_of_lt (by omega), Nat.mul_comm]
    · show sub32 session.heap.size session.heap.used / 1024 = _
      rw [sub32_of_le (by omega) (by omega)]

theorem heap_status_exact_initial :
    ∃ status, showHeapStatus (initHeap (fun _ => 0) 0xE0000000 0x10000000) = some status ∧
      Exact (initHeap (fun _ => 0) 0xE0000000 0x10000000) status := by
  have reached : Reachable (Session.initial (fun _ => 0) 0xE0000000 0x10000000) :=
    ⟨_, _, _, .refl⟩
  obtain ⟨status, shown, exact_iff⟩ := heap_status_exact_iff reached
  exact ⟨status, shown, exact_iff.mpr (by simp [liveBytes, Session.initial])⟩

/-- The request for a fresh heap's whole payload leaves one allocated block. -/
theorem initial_kmalloc_whole (memory : Memory) (start size : Nat) :
    ∃ heap, kmalloc (initHeap memory start size) 0x0FFFFFF0 = some (heap, 0xD0000010) ∧
      WellFormed heap [⟨0xD0000000, 0x10000000, false⟩] := by
  have consistent := initial_consistent memory start size
  have request : requestSize 0x0FFFFFF0 = 0x10000000 := requestSize_eq (by omega)
  have whole : carve (requestSize 0x0FFFFFF0) ⟨0xD0000000, 0x10000000, true⟩ =
      [⟨0xD0000000, 0x10000000, false⟩] := by
    rw [request]
    rfl
  obtain ⟨_, none⟩ | ⟨pre, block, post, shape, fits, _, served⟩ :=
    kmalloc_eq 0x0FFFFFF0 consistent.heap
  · exact absurd ⟨rfl, by simp [request]⟩ (none _ List.mem_cons_self)
  · have alone : pre = [] ∧ block = ⟨0xD0000000, 0x10000000, true⟩ ∧ post = [] := by
      cases pre with
      | nil =>
          obtain ⟨same, rfl⟩ := List.cons.inj shape
          exact ⟨rfl, same.symm, rfl⟩
      | cons first rest => simp at shape
    obtain ⟨rfl, rfl, rfl⟩ := alone
    have free : Consistent _ ([] ++ ⟨0xD0000000, 0x10000000, true⟩ :: []) := consistent
    have valid := (free.kmalloc_take (by omega) fits).1.heap
    rw [whole] at valid
    exact ⟨_, served, valid⟩

/-- One request for the whole heap: 4 percent used, and almost 4 GB free. -/
theorem heap_status_wraps :
    ∃ session, Reachable session ∧ session.live = [⟨0xD0000010, 0x0FFFFFF0⟩] ∧
      session.heap.size < session.heap.used ∧
      ∃ status, showHeapStatus session.heap = some status ∧ status.usedPercent = 4 ∧
        status.freeKb = 4194303 ∧ ¬ Exact session.heap status := by
  obtain ⟨heap, served, valid⟩ := initial_kmalloc_whole (fun _ => 0) 0xE0000000 0x10000000
  have step := @Step.kmalloc (Session.initial (fun _ => 0) 0xE0000000 0x10000000) heap
    0xD0000010 0x0FFFFFF0 (by omega) served
  have reached : Reachable ⟨heap, [⟨0xD0000010, 0x0FFFFFF0⟩]⟩ := ⟨_, _, _, .single step⟩
  have used : heap.used = 0x10000010 := valid.used
  have size : heap.size = 0x10000000 := reached.extent.2
  refine ⟨_, reached, rfl, ?_, _, valid.showHeapStatus_eq, ?_, ?_, fun exact => ?_⟩
  · simp only [used, size]
    omega
  · simp only [used, size]
    rfl
  · simp only [used, size]
    rfl
  · have fits := exact.fits
    simp only [used, size] at fits
    omega

end

end Helios.Heap
