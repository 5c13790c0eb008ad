import Helios.Heap.Free
import Mathlib.Logic.Relation

namespace Helios.Heap

open Helios.Data

/-! Whole runs of the kernel heap: requests, releases of live pointers, and
clients that write what they like into their own payloads. -/

/-- A pointer that `kmalloc` returned, with the number of bytes asked for. -/
structure Allocation where
  pointer : Nat
  requested : Nat
deriving Repr, DecidableEq

structure Session where
  heap : KernelHeap
  live : List Allocation

/-- Bytes behind a live pointer, as its header records them. -/
def capacity (heap : KernelHeap) (pointer : Nat) : Nat :=
  blockSize heap.memory (pointer - headerSize) - headerSize

/-- `position` belongs to the payload of the allocation. -/
def InPayload (heap : KernelHeap) (allocation : Allocation) (position : Nat) : Prop :=
  allocation.pointer ≤ position ∧ position < allocation.pointer + capacity heap allocation.pointer

inductive Step : Session → Session → Prop
  | kmalloc {session : Session} {heap : KernelHeap} {pointer : Nat} (size : Nat)
      (bound : size ≤ 0xFFFFFFE8) (result : kmalloc session.heap size = some (heap, pointer)) :
      Step session
        ⟨heap, if pointer = 0 then session.live else ⟨pointer, size⟩ :: session.live⟩
  | kfree {session : Session} (allocation : Allocation) (live : allocation ∈ session.live) :
      Step session ⟨kfree session.heap allocation.pointer, session.live.erase allocation⟩
  | write {session : Session} (allocation : Allocation) (live : allocation ∈ session.live)
      (position : Nat) (byte : UInt8) (inside : InPayload session.heap allocation position) :
      Step session
        ⟨{ session.heap with memory := session.heap.memory.store8 position byte }, session.live⟩

/-- The heap as `init_kheap` leaves it, over any memory and any arguments. -/
def Session.initial (memory : Memory) (start size : Nat) : Session :=
  ⟨initHeap memory start size, []⟩

def Reachable (session : Session) : Prop :=
  ∃ memory start size, Relation.ReflTransGen Step (Session.initial memory start size) session

/-- The header addresses met by following `next` from `kernel_heap.start`. -/
inductive OnBlockList (heap : KernelHeap) : Nat → Prop
  | first : OnBlockList heap heap.start
  | next {block : Nat} (earlier : OnBlockList heap block)
      (linked : next heap.memory block ≠ 0) : OnBlockList heap (next heap.memory block)

/-- An allocation is a live view of an allocated block. -/
structure Backs (block : Block) (allocation : Allocation) : Prop where
  allocated : block.free = false
  pointer : allocation.pointer = block.address + 16
  room : allocation.requested + 16 ≤ block.size

/-- The invariant of a session: the heap is well formed and its allocated
blocks are exactly the live allocations. -/
structure Consistent (session : Session) (blocks : List Block) : Prop where
  heap : WellFormed session.heap blocks
  backed : ∀ allocation ∈ session.live, ∃ block ∈ blocks, Backs block allocation
  accounted : ∀ block ∈ blocks, block.free = false → ∃ allocation ∈ session.live,
    Backs block allocation
  distinct : (session.live.map Allocation.pointer).Nodup

section

variable {session next : Session} {heap : KernelHeap} {blocks pre post : List Block}
variable {block other : Block} {allocation : Allocation} {position : Nat}

theorem WellFormed.capacity_eq (valid : WellFormed heap blocks) (member : block ∈ blocks)
    (backs : Backs block allocation) :
    capacity heap allocation.pointer = block.size - 16 := by
  obtain ⟨pre, post, rfl⟩ := List.append_of_mem member
  have place : allocation.pointer - headerSize = block.address := by
    rw [backs.pointer]
    exact Nat.add_sub_cancel _ _
  rw [capacity, place, valid.header.size]
  rfl

theorem WellFormed.inPayload_iff (valid : WellFormed heap blocks) (member : block ∈ blocks)
    (backs : Backs block allocation) :
    InPayload heap allocation position ↔
      block.address + 16 ≤ position ∧ position < block.address + block.size := by
  have large := (valid.sizes block member).1
  rw [InPayload, valid.capacity_eq member backs, backs.pointer]
  omega

/-- Changing bytes of one payload leaves every header as it was. -/
theorem WellFormed.confined {memory : Memory} (valid : WellFormed heap blocks)
    (member : block ∈ blocks)
    (confined : Memory.Confined (block.address + 16) (block.address + block.size) heap.memory
      memory) : WellFormed { heap with memory } blocks where
  covers := valid.covers
  linked := by
    refine valid.linked.imp fun item inside _ _ header => header.congr fun place low high => ?_
    have large := (valid.sizes item inside).1
    by_cases same : block = item
    · subst same
      exact confined place (by omega)
    · have apart := valid.covers.apart member inside same
      exact confined place (by omega)
  sizes := valid.sizes
  startPositive := valid.startPositive
  startAligned := valid.startAligned
  sizePositive := valid.sizePositive
  bounded := valid.bounded
  separated := valid.separated
  used := valid.used

/-- Different live allocations are backed by different blocks. -/
theorem Consistent.other_block (consistent : Consistent session (pre ++ block :: post))
    (backs : Backs block allocation) (live : allocation ∈ session.live)
    {another : Allocation} (otherLive : another ∈ session.live.erase allocation) :
    ∃ other ∈ pre ++ post, Backs other another := by
  obtain ⟨other, member, otherBacks⟩ :=
    consistent.backed another (List.mem_of_mem_erase otherLive)
  refine ⟨other, ?_, otherBacks⟩
  have different : other ≠ block := by
    rintro rfl
    have same : another.pointer = allocation.pointer :=
      otherBacks.pointer.trans backs.pointer.symm
    have permuted := (List.perm_cons_erase live).map Allocation.pointer
    have nodup := permuted.nodup_iff.mp consistent.distinct
    rw [List.map_cons, List.nodup_cons] at nodup
    exact nodup.1 (same ▸ List.mem_map_of_mem otherLive)
  simpa [different] using member

theorem mem_cut_of_free {item : Block} (free : block.free = true) (allocated : item.free = false) :
    item ∈ pre ++ block :: post ↔ item ∈ pre ++ post := by
  have different : item ≠ block := by
    rintro rfl
    simp [free] at allocated
  simp [different]

/-- The block that a request takes. -/
def taken (size : Nat) (block : Block) : Block :=
  ⟨block.address, if size + 24 ≤ block.size then size else block.size, false⟩

theorem mem_take {item : Block} (free : block.free = true) (allocated : item.free = false)
    (size : Nat) :
    item ∈ pre ++ carve size block ++ post ↔ item ∈ pre ++ block :: post ∨ item = taken size block := by
  rw [mem_cut_of_free free allocated, List.mem_append, List.mem_append, mem_carve allocated,
    List.mem_append, taken]
  tauto

theorem Consistent.kmalloc_take (consistent : Consistent session (pre ++ block :: post)) {size : Nat}
    (bound : size ≤ 0xFFFFFFE8) (fits : Fits (requestSize size) block) :
    Consistent ⟨takeBlock session.heap (requestSize size) block.address,
      ⟨block.address + 16, size⟩ :: session.live⟩ (pre ++ carve (requestSize size) block ++ post) ∧
      Backs (taken (requestSize size) block) ⟨block.address + 16, size⟩ := by
  have request := requestSize_eq bound
  have valid := takeBlock_wellFormed consistent.heap fits.1 (by omega) (by omega) fits.2
  have room : requestSize size ≤ (taken (requestSize size) block).size := by
    unfold taken
    dsimp only
    split
    · exact Nat.le_refl _
    · exact fits.2
  have takenBacks : Backs (taken (requestSize size) block) ⟨block.address + 16, size⟩ :=
    ⟨rfl, rfl, by simp only; omega⟩
  refine ⟨⟨valid, ?_, ?_, ?_⟩, takenBacks⟩
  · intro allocation live
    rcases List.mem_cons.mp live with rfl | earlier
    · exact ⟨_, (mem_take fits.1 rfl _).mpr (.inr rfl), takenBacks⟩
    · obtain ⟨item, member, backs⟩ := consistent.backed allocation earlier
      exact ⟨item, (mem_take fits.1 backs.allocated _).mpr (.inl member), backs⟩
  · intro item member allocated
    rcases (mem_take fits.1 allocated _).mp member with old | rfl
    · obtain ⟨allocation, live, backs⟩ := consistent.accounted item old allocated
      exact ⟨allocation, List.mem_cons_of_mem _ live, backs⟩
    · exact ⟨_, List.mem_cons_self, takenBacks⟩
  · refine List.nodup_cons.mpr ⟨?_, consistent.distinct⟩
    intro repeated
    obtain ⟨allocation, live, same⟩ := List.mem_map.mp repeated
    obtain ⟨item, member, backs⟩ := consistent.backed allocation live
    have place : item.address = block.address := by
      have := backs.pointer
      simp only at same
      omega
    have different : item ≠ block := by
      rintro rfl
      exact absurd backs.allocated (by simp [fits.1])
    have positive := consistent.heap.covers.positive member
    have blockPositive := consistent.heap.covers.positive (show block ∈ pre ++ block :: post by simp)
    rcases consistent.heap.covers.apart member (by simp) different with before | behind <;> omega

theorem Consistent.kmalloc_step (consistent : Consistent session blocks) {pointer size : Nat}
    (bound : size ≤ 0xFFFFFFE8) (result : kmalloc session.heap size = some (heap, pointer)) :
    ∃ after, Consistent
      ⟨heap, if pointer = 0 then session.live else ⟨pointer, size⟩ :: session.live⟩ after := by
  rcases kmalloc_eq size consistent.heap with
    ⟨failed, _⟩ | ⟨pre, block, post, rfl, fits, _, served⟩
  · rw [failed] at result
    obtain ⟨rfl, rfl⟩ := Prod.mk.inj (Option.some.inj result)
    exact ⟨blocks, by simpa using consistent⟩
  · rw [served] at result
    obtain ⟨rfl, rfl⟩ := Prod.mk.inj (Option.some.inj result)
    rw [if_neg (Nat.succ_ne_zero _)]
    exact ⟨_, (consistent.kmalloc_take bound fits).1⟩

theorem Consistent.kfree_release (consistent : Consistent session (pre ++ block :: post))
    (live : allocation ∈ session.live) (backs : Backs block allocation) :
    Consistent ⟨kfree session.heap allocation.pointer, session.live.erase allocation⟩
      (release pre block post) := by
  rw [backs.pointer]
  refine ⟨kfree_wellFormed consistent.heap backs.allocated, ?_, ?_, ?_⟩
  · intro another otherLive
    obtain ⟨other, inside, otherBacks⟩ := consistent.other_block backs live otherLive
    exact ⟨other, (mem_release otherBacks.allocated).mpr inside, otherBacks⟩
  · intro other inside allocated
    have stays := (mem_release allocated).mp inside
    have old : other ∈ pre ++ block :: post := by
      rcases List.mem_append.mp stays with before | behind <;> simp [*]
    obtain ⟨another, otherLive, otherBacks⟩ := consistent.accounted other old allocated
    refine ⟨another, (List.mem_erase_of_ne ?_).mpr otherLive, otherBacks⟩
    rintro rfl
    have positive := consistent.heap.covers.positive old
    have blockPositive := consistent.heap.covers.positive (show block ∈ pre ++ block :: post by simp)
    have place := otherBacks.pointer.symm.trans backs.pointer
    have apart := consistent.heap.covers.beside stays
    omega
  · exact consistent.distinct.sublist (List.erase_sublist.map _)

theorem Consistent.kfree_step (consistent : Consistent session blocks)
    (live : allocation ∈ session.live) :
    ∃ after, Consistent
      ⟨kfree session.heap allocation.pointer, session.live.erase allocation⟩ after := by
  obtain ⟨block, member, backs⟩ := consistent.backed allocation live
  obtain ⟨pre, post, rfl⟩ := List.append_of_mem member
  exact ⟨_, consistent.kfree_release live backs⟩

theorem Consistent.confined {memory : Memory} (consistent : Consistent session blocks)
    (member : block ∈ blocks)
    (confined : Memory.Confined (block.address + 16) (block.address + block.size)
      session.heap.memory memory) :
    Consistent ⟨{ session.heap with memory }, session.live⟩ blocks :=
  ⟨consistent.heap.confined member confined, consistent.backed, consistent.accounted,
    consistent.distinct⟩

theorem Consistent.write_step (consistent : Consistent session blocks)
    (live : allocation ∈ session.live) (byte : UInt8)
    (inside : InPayload session.heap allocation position) :
    Consistent
      ⟨{ session.heap with memory := session.heap.memory.store8 position byte }, session.live⟩
      blocks := by
  obtain ⟨block, member, backs⟩ := consistent.backed allocation live
  obtain ⟨lower, upper⟩ := (consistent.heap.inPayload_iff member backs).mp inside
  exact consistent.confined member (Memory.Confined.refl.store8 lower upper)

theorem Consistent.step (consistent : Consistent session blocks) (step : Step session next) :
    ∃ after, Consistent next after := by
  cases step with
  | kmalloc size bound result => exact consistent.kmalloc_step bound result
  | kfree allocation live => exact consistent.kfree_step live
  | write allocation live position byte inside => exact ⟨blocks, consistent.write_step live byte inside⟩

theorem initial_consistent (memory : Memory) (start size : Nat) :
    Consistent (Session.initial memory start size) [⟨0xD0000000, 0x10000000, true⟩] where
  heap := initHeap_wellFormed memory start size
  backed := by simp [Session.initial]
  accounted := by simp
  distinct := .nil

theorem Reachable.consistent (reached : Reachable session) :
    ∃ blocks, Consistent session blocks := by
  obtain ⟨memory, start, size, run⟩ := reached
  induction run with
  | refl => exact ⟨_, initial_consistent memory start size⟩
  | tail _ step ih =>
      obtain ⟨blocks, consistent⟩ := ih
      exact consistent.step step

/-- Following `next` from the start of the heap visits exactly the listed blocks. -/
theorem WellFormed.onBlockList_iff (valid : WellFormed heap blocks) {address : Nat} :
    OnBlockList heap address ↔ ∃ block ∈ blocks, block.address = address := by
  constructor
  · intro visited
    induction visited with
    | first =>
        have head := valid.head_eq_start
        cases blocks with
        | nil => exact absurd head (Nat.ne_of_lt valid.startPositive)
        | cons first rest => exact ⟨first, by simp, head⟩
    | next earlier linked ih =>
        obtain ⟨block, member, rfl⟩ := ih
        obtain ⟨pre, post, rfl⟩ := List.append_of_mem member
        rw [valid.header.next] at linked ⊢
        cases post with
        | nil => exact absurd rfl linked
        | cons second rest => exact ⟨second, by simp, rfl⟩
  · rintro ⟨block, member, rfl⟩
    obtain ⟨pre, post, rfl⟩ := List.append_of_mem member
    induction pre using List.reverseRecOn generalizing block post with
    | nil =>
        have head : block.address = heap.start := valid.head_eq_start
        rw [head]
        exact .first
    | append_singleton pre before ih =>
        have regroup : pre ++ [before] ++ block :: post = pre ++ before :: block :: post := by simp
        rw [regroup] at valid
        have visited := ih before (block :: post) valid (by simp)
        have forward : Heap.next heap.memory before.address = block.address := valid.header.next
        have bounds := valid.blockBounds (show block ∈ pre ++ before :: block :: post by simp)
        have positive := valid.startPositive
        rw [← forward]
        exact visited.next (by omega)

/-- In every reachable state the blocks met by following `next` tile the heap in
increasing order, are linked both ways with `NULL` at the ends, have sizes that
are multiples of eight and hold a header, are never both free side by side, and
account for the `used` counter; and the search of `kmalloc` ends. -/
theorem reachable_block_list (reached : Reachable session) :
    ∃ blocks : List Block,
      (∀ address, OnBlockList session.heap address ↔ ∃ block ∈ blocks, block.address = address) ∧
      Covers session.heap.start blocks (session.heap.start + session.heap.size) ∧
      BlockList session.heap.memory blocks ∧
      (∀ block ∈ blocks, block.size % 8 = 0 ∧ 16 ≤ block.size) ∧
      Separated blocks ∧
      session.heap.used = 16 + allocatedBytes blocks ∧
      ∀ size, (kmalloc session.heap size).isSome := by
  obtain ⟨blocks, consistent⟩ := reached.consistent
  have valid := consistent.heap
  refine ⟨blocks, fun address => valid.onBlockList_iff, valid.covers, valid.linked,
    fun block member => (valid.sizes block member).symm, valid.separated, valid.used, ?_⟩
  intro size
  rcases kmalloc_eq size valid with ⟨result, _⟩ | ⟨_, _, _, _, _, _, result⟩ <;>
    simp [result]

theorem initial_kmalloc (memory : Memory) (start size : Nat) (request : Nat)
    (small : request ≤ 4096) :
    ∃ heap, kmalloc (initHeap memory start size) request = some (heap, 0xD0000010) := by
  have rounded := requestSize_eq (show request ≤ 0xFFFFFFE8 by omega)
  rcases kmalloc_eq request (initHeap_wellFormed memory start size) with
    ⟨_, none⟩ | ⟨pre, block, post, shape, _, _, served⟩
  · refine absurd ?_ (none _ List.mem_cons_self)
    exact ⟨rfl, by simp only; omega⟩
  · have member : block ∈ [Block.mk 0xD0000000 0x10000000 true] := by
      rw [shape]
      simp
    rw [List.mem_singleton.mp member] at served
    exact ⟨_, served⟩

theorem reachable_kmalloc_hundred : ∃ heap, Reachable ⟨heap, [⟨0xD0000010, 100⟩]⟩ := by
  obtain ⟨heap, served⟩ :=
    initial_kmalloc (fun _ => 0) 0xE0000000 0x10000000 100 (by omega)
  have step := @Step.kmalloc (Session.initial (fun _ => 0) 0xE0000000 0x10000000) heap
    0xD0000010 100 (by omega) served
  exact ⟨heap, fun _ => 0, 0xE0000000, 0x10000000, .single step⟩

theorem reachable_block_list_after_kmalloc :
    ∃ session, Reachable session ∧ session.live = [⟨0xD0000010, 100⟩] ∧
      ∃ blocks : List Block,
        Covers session.heap.start blocks (session.heap.start + session.heap.size) ∧
        session.heap.used = 16 + allocatedBytes blocks := by
  obtain ⟨heap, reached⟩ := reachable_kmalloc_hundred
  obtain ⟨blocks, _, covers, _, _, _, used, _⟩ := reachable_block_list reached
  exact ⟨_, reached, rfl, blocks, covers, used⟩

/-- Payloads of live allocations lie in the heap, are aligned, hold what was
asked for, and meet neither each other nor a header on the block list. -/
theorem Consistent.payload (consistent : Consistent session blocks)
    (live : allocation ∈ session.live) :
    session.heap.start ≤ allocation.pointer ∧
      allocation.pointer + capacity session.heap allocation.pointer ≤
        session.heap.start + session.heap.size ∧
      allocation.pointer % 8 = 0 ∧
      allocation.requested ≤ capacity session.heap allocation.pointer := by
  obtain ⟨block, member, backs⟩ := consistent.backed allocation live
  have bounds := consistent.heap.blockBounds member
  have aligned := consistent.heap.aligned member
  have room := backs.room
  rw [consistent.heap.capacity_eq member backs, backs.pointer]
  omega

theorem Consistent.payload_header (consistent : Consistent session blocks)
    (live : allocation ∈ session.live) {header : Nat} (listed : OnBlockList session.heap header)
    (inside : InPayload session.heap allocation position) :
    position < header ∨ header + 16 ≤ position := by
  obtain ⟨block, member, backs⟩ := consistent.backed allocation live
  obtain ⟨other, otherMember, rfl⟩ := consistent.heap.onBlockList_iff.mp listed
  obtain ⟨lower, upper⟩ := (consistent.heap.inPayload_iff member backs).mp inside
  have large := (consistent.heap.sizes other otherMember).1
  by_cases same : block = other
  · subst same
    exact .inr lower
  · rcases consistent.heap.covers.apart member otherMember same with before | behind <;> omega

theorem Consistent.payload_pairwise (consistent : Consistent session blocks) :
    session.live.Pairwise fun left right => ∀ position,
      ¬ (InPayload session.heap left position ∧ InPayload session.heap right position) := by
  refine (List.pairwise_map.mp consistent.distinct).imp_of_mem ?_
  rintro left right leftLive rightLive different position ⟨inLeft, inRight⟩
  obtain ⟨block, member, backs⟩ := consistent.backed left leftLive
  obtain ⟨other, otherMember, otherBacks⟩ := consistent.backed right rightLive
  have leftRange := (consistent.heap.inPayload_iff member backs).mp inLeft
  have rightRange := (consistent.heap.inPayload_iff otherMember otherBacks).mp inRight
  have distinct : block ≠ other := by
    rintro rfl
    exact different (backs.pointer.trans otherBacks.pointer.symm)
  rcases consistent.heap.covers.apart member otherMember distinct with before | behind <;> omega

theorem Consistent.kmalloc_frame (consistent : Consistent session blocks) {pointer size : Nat}
    (bound : size ≤ 0xFFFFFFE8) (result : kmalloc session.heap size = some (heap, pointer))
    (live : allocation ∈ session.live) (inside : InPayload session.heap allocation position) :
    heap.memory position = session.heap.memory position := by
  have request := requestSize_eq bound
  rcases kmalloc_eq size consistent.heap with
    ⟨failed, _⟩ | ⟨pre, block, post, rfl, fits, _, served⟩
  · rw [failed] at result
    obtain ⟨rfl, rfl⟩ := Prod.mk.inj (Option.some.inj result)
    rfl
  · rw [served] at result
    obtain ⟨rfl, rfl⟩ := Prod.mk.inj (Option.some.inj result)
    obtain ⟨other, member, backs⟩ := consistent.backed allocation live
    obtain ⟨lower, upper⟩ := (consistent.heap.inPayload_iff member backs).mp inside
    exact takeBlock_other consistent.heap fits.1 (by omega) fits.2
      ((mem_cut_of_free fits.1 backs.allocated).mp member) lower upper

theorem Consistent.kfree_frame (consistent : Consistent session blocks)
    (live : allocation ∈ session.live) {another : Allocation}
    (otherLive : another ∈ session.live.erase allocation)
    (inside : InPayload session.heap another position) :
    (kfree session.heap allocation.pointer).memory position = session.heap.memory position := by
  obtain ⟨block, member, backs⟩ := consistent.backed allocation live
  obtain ⟨pre, post, rfl⟩ := List.append_of_mem member
  obtain ⟨other, inOthers, otherBacks⟩ := consistent.other_block backs live otherLive
  have otherMember : other ∈ pre ++ block :: post := by
    rcases List.mem_append.mp inOthers with before | behind <;> simp [*]
  obtain ⟨lower, upper⟩ := (consistent.heap.inPayload_iff otherMember otherBacks).mp inside
  rw [backs.pointer]
  exact kfree_other consistent.heap backs.allocated inOthers lower upper

/-- Live allocations are never disturbed, whatever clients have written into
their payloads on the way to this state. -/
theorem reachable_payloads_undisturbed (reached : Reachable session) :
    (∀ allocation ∈ session.live,
      session.heap.start ≤ allocation.pointer ∧
      allocation.pointer + capacity session.heap allocation.pointer ≤
        session.heap.start + session.heap.size ∧
      allocation.pointer % 8 = 0 ∧
      allocation.requested ≤ capacity session.heap allocation.pointer ∧
      ∀ header position, OnBlockList session.heap header →
        InPayload session.heap allocation position →
        position < header ∨ header + headerSize ≤ position) ∧
    (session.live.Pairwise fun left right => ∀ position,
      ¬ (InPayload session.heap left position ∧ InPayload session.heap right position)) ∧
    (∀ size heap pointer, size ≤ 0xFFFFFFE8 → kmalloc session.heap size = some (heap, pointer) →
      ∀ allocation ∈ session.live, ∀ position, InPayload session.heap allocation position →
        heap.memory position = session.heap.memory position) ∧
    (∀ freed ∈ session.live, ∀ allocation ∈ session.live.erase freed, ∀ position,
      InPayload session.heap allocation position →
        (kfree session.heap freed.pointer).memory position = session.heap.memory position) := by
  obtain ⟨blocks, consistent⟩ := reached.consistent
  refine ⟨?_, consistent.payload_pairwise, ?_, ?_⟩
  · intro allocation live
    obtain ⟨lower, upper, aligned, room⟩ := consistent.payload live
    exact ⟨lower, upper, aligned, room,
      fun header position listed inside => consistent.payload_header live listed inside⟩
  · intro size heap pointer bound result allocation live position inside
    exact consistent.kmalloc_frame bound result live inside
  · intro freed live allocation otherLive position inside
    exact consistent.kfree_frame live otherLive inside

theorem reachable_payloads_undisturbed_after_kmalloc :
    ∃ session, Reachable session ∧ session.live = [⟨0xD0000010, 100⟩] ∧
      100 ≤ capacity session.heap 0xD0000010 := by
  obtain ⟨heap, reached⟩ := reachable_kmalloc_hundred
  obtain ⟨payloads, _⟩ := reachable_payloads_undisturbed reached
  exact ⟨_, reached, rfl, (payloads _ List.mem_cons_self).2.2.2.1⟩

end

end Helios.Heap
