import Helios.Data.Layout
import Helios.Heap.Model

namespace Helios.Heap

open Helios.Data

/-! The block list as a value, and what it means for memory to hold it. -/

structure Block where
  address : Nat
  size : Nat
  free : Bool
deriving Repr, DecidableEq

/-- The header of `block` as stored in memory, with its two links. -/
structure Header (memory : Memory) (block : Block) (previous following : Nat) : Prop where
  size : blockSize memory block.address = block.size
  flag : memory (block.address + 4) = if block.free then 1 else 0
  next : next memory block.address = following
  prev : prev memory block.address = previous

variable {memory after : Memory} {block : Block} {previous following : Nat}

theorem Header.isFree_eq (header : Header memory block previous following) :
    isFree memory block.address = block.free := by
  unfold isFree
  rw [header.flag]
  cases block.free <;> rfl

theorem Header.congr (header : Header memory block previous following)
    (agree : ∀ position, block.address ≤ position → position < block.address + 16 →
      after position = memory position) :
    Header after block previous following where
  size := (Memory.load32_congr fun _ lower upper => agree _ lower (by omega)).trans header.size
  flag := (agree _ (by omega) (by omega)).trans header.flag
  next := (Memory.load32_congr fun _ lower upper => agree _ (by omega) (by omega)).trans header.next
  prev := (Memory.load32_congr fun _ lower upper => agree _ (by omega) (by omega)).trans header.prev

/-- Changing only the `prev` word of a header changes only its backward link. -/
theorem Header.relink {replaced : Nat} (header : Header memory block previous following)
    (agree : ∀ position, block.address ≤ position → position < block.address + 12 →
      after position = memory position)
    (stored : Heap.prev after block.address = replaced) :
    Header after block replaced following where
  size := (Memory.load32_congr fun _ lower upper => agree _ lower (by omega)).trans header.size
  flag := (agree _ (by omega) (by omega)).trans header.flag
  next := (Memory.load32_congr fun _ lower upper => agree _ (by omega) (by omega)).trans header.next
  prev := stored

/-- Storing `is_free` changes the flag and nothing else of the header. -/
theorem Header.reflag (header : Header memory block previous following) (free : Bool) :
    Header (setFree memory block.address (if free then 1 else 0)) { block with free }
      previous following := by
  refine ⟨?_, Memory.store8_same, ?_, ?_⟩ <;>
    simp only [setFree, blockSize, Heap.next, Heap.prev]
  · exact (Memory.load32_store8_other (by omega)).trans header.size
  · exact (Memory.load32_store8_other (by omega)).trans header.next
  · exact (Memory.load32_store8_other (by omega)).trans header.prev

/-- Redirecting the first `prev` link of a list of blocks in increasing order
leaves a list with that backward link. -/
theorem linked_relink {blocks : List Block} {replaced : Nat}
    (linked : Linked (Header memory) Block.address previous blocks following)
    (apart : ∀ block ∈ blocks.tail,
      headAddress Block.address blocks following + 16 ≤ block.address)
    (agree : blocks ≠ [] → ∀ position, headAddress Block.address blocks following ≤ position →
      position < headAddress Block.address blocks following + 12 ∨
        headAddress Block.address blocks following + 16 ≤ position →
      after position = memory position)
    (stored : blocks ≠ [] →
      Heap.prev after (headAddress Block.address blocks following) = replaced) :
    Linked (Header after) Block.address replaced blocks following := by
  cases blocks with
  | nil => trivial
  | cons first rest =>
      obtain ⟨head, tail⟩ := linked
      refine ⟨head.relink (fun position lower upper => agree (by simp) position lower (.inl upper))
        (stored (by simp)), ?_⟩
      refine tail.imp fun block member left right header => header.congr ?_
      intro position lower upper
      have behind := apart block member
      exact agree (by simp) position (by omega) (.inr (by omega))

/-- Bytes in allocated blocks, headers included. -/
def allocatedBytes : List Block → Nat
  | [] => 0
  | block :: rest => (if block.free then 0 else block.size) + allocatedBytes rest

theorem allocatedBytes_append (before after : List Block) :
    allocatedBytes (before ++ after) = allocatedBytes before + allocatedBytes after := by
  induction before with
  | nil => simp [allocatedBytes]
  | cons first rest ih =>
      simp only [List.cons_append, allocatedBytes, ih]
      omega

/-- The memory holds exactly this doubly linked list of blocks, with `NULL` at
both ends. -/
abbrev BlockList (memory : Memory) (blocks : List Block) : Prop :=
  Linked (Header memory) Block.address 0 blocks 0

abbrev Covers (start : Nat) (blocks : List Block) (stop : Nat) : Prop :=
  Tiles Block.address Block.size start blocks stop

/-- No two neighbouring blocks are both free. -/
abbrev Separated (blocks : List Block) : Prop :=
  blocks.IsChain fun left right => ¬ (left.free = true ∧ right.free = true)

/-- The memory holds a list of blocks that covers the heap. -/
structure Shaped (memory : Memory) (start size : Nat) (blocks : List Block) : Prop where
  covers : Covers start blocks (start + size)
  linked : BlockList memory blocks
  sizes : ∀ block ∈ blocks, 16 ≤ block.size ∧ block.size % 8 = 0
  startPositive : 0 < start
  startAligned : start % 8 = 0
  sizePositive : 0 < size
  bounded : start + size + 24 ≤ 4294967296

/-- The representation invariant of the kernel heap. -/
structure WellFormed (heap : KernelHeap) (blocks : List Block) : Prop
    extends Shaped heap.memory heap.start heap.size blocks where
  separated : Separated blocks
  used : heap.used = 16 + allocatedBytes blocks

variable {heap : KernelHeap} {start size : Nat} {blocks pre post : List Block}

theorem covers_allocated_le {start stop : Nat} (covers : Covers start blocks stop) :
    allocatedBytes blocks ≤ stop - start := by
  induction blocks generalizing start with
  | nil => simp [allocatedBytes]
  | cons first rest ih =>
      obtain ⟨_, _, remaining⟩ := covers
      have tail := ih remaining
      have ordered := remaining.start_le_stop
      simp only [allocatedBytes]
      split <;> omega

theorem covers_length_le {start stop : Nat} (covers : Covers start blocks stop) :
    start + blocks.length ≤ stop := by
  induction blocks generalizing start with
  | nil => exact Nat.le_of_eq covers
  | cons first rest ih =>
      obtain ⟨_, positive, remaining⟩ := covers
      have tail := ih remaining
      simp only [List.length_cons]
      omega

theorem covers_aligned {start stop : Nat} (covers : Covers start blocks stop)
    (sizes : ∀ block ∈ blocks, 16 ≤ block.size ∧ block.size % 8 = 0)
    (aligned : start % 8 = 0) : ∀ block ∈ blocks, block.address % 8 = 0 := by
  induction blocks generalizing start with
  | nil => simp
  | cons first rest ih =>
      obtain ⟨place, _, remaining⟩ := covers
      intro block member
      rcases List.mem_cons.mp member with rfl | later
      · omega
      · have step := sizes first (by simp)
        exact ih remaining (fun item inside => sizes item (by simp [inside])) (by omega) block later

theorem separated_cut : Separated (pre ++ block :: post) ↔
    Separated pre ∧ Separated post ∧
      (∀ left ∈ pre.getLast?, ¬ (left.free = true ∧ block.free = true)) ∧
      (∀ right ∈ post.head?, ¬ (block.free = true ∧ right.free = true)) := by
  unfold Separated
  rw [List.isChain_append, List.isChain_cons]
  simp only [List.head?_cons, Option.mem_some_iff, forall_eq']
  tauto

theorem separated_cons : Separated (block :: post) ↔
    Separated post ∧ ∀ right ∈ post.head?, ¬ (block.free = true ∧ right.free = true) := by
  unfold Separated
  rw [List.isChain_cons, and_comm]

namespace Shaped

theorem blockBounds (valid : Shaped memory start size blocks) (member : block ∈ blocks) :
    start ≤ block.address ∧ block.address + block.size ≤ start + size :=
  valid.covers.bounds member

theorem aligned (valid : Shaped memory start size blocks) (member : block ∈ blocks) :
    block.address % 8 = 0 :=
  covers_aligned valid.covers valid.sizes valid.startAligned block member

theorem head_eq_start (valid : Shaped memory start size blocks) :
    headAddress Block.address blocks 0 = start := by
  cases blocks with
  | nil =>
      have covers : start = start + size := valid.covers
      have := valid.sizePositive
      omega
  | cons first rest => exact valid.covers.1

theorem length_lt (valid : Shaped memory start size blocks) : blocks.length < 4294967296 := by
  have := covers_length_le valid.covers
  have := valid.bounded
  omega

theorem header (valid : Shaped memory start size (pre ++ block :: post)) :
    Header memory block (lastAddress Block.address 0 pre) (headAddress Block.address post 0) :=
  (linked_append.mp valid.linked).2.1

/-- The link to the next block is `NULL` or the end of this one. -/
theorem following_eq (valid : Shaped memory start size (pre ++ block :: post))
    (linked : headAddress Block.address post 0 ≠ 0) :
    headAddress Block.address post 0 = block.address + block.size := by
  obtain ⟨_, _, place, _, right⟩ := tiles_append.mp valid.covers
  cases post with
  | nil => exact absurd rfl linked
  | cons first rest =>
      have := right.1
      simp only [headAddress]
      omega

theorem following_ne_zero (valid : Shaped memory start size (pre ++ block :: post))
    (more : post ≠ []) : headAddress Block.address post 0 ≠ 0 := by
  cases post with
  | nil => exact absurd rfl more
  | cons first rest =>
      have := (valid.blockBounds (show first ∈ pre ++ block :: first :: rest by simp)).1
      have := valid.startPositive
      simp only [headAddress]
      omega

/-- The blocks behind a block stand in increasing order. -/
theorem following_apart (valid : Shaped memory start size (pre ++ block :: post)) :
    ∀ other ∈ post.tail, headAddress Block.address post 0 + 16 ≤ other.address := by
  cases post with
  | nil => simp
  | cons first rest =>
      intro other member
      have split : pre ++ block :: first :: rest = (pre ++ [block]) ++ first :: rest := by simp
      have later := (split ▸ valid.covers).around.2 other member
      have := (valid.sizes first (by simp)).1
      simp only [headAddress]
      omega

theorem following_bound (valid : Shaped memory start size (pre ++ block :: post)) :
    headAddress Block.address post 0 < 4294967296 := by
  by_cases linked : headAddress Block.address post 0 = 0
  · omega
  · have := valid.following_eq linked
    have := valid.blockBounds List.mem_append_cons_self
    have := valid.bounded
    omega

/-- Storing `is_free` of one block leaves the rest of the list as it was. -/
theorem reflag_linked (valid : Shaped memory start size (pre ++ block :: post)) (free : Bool) :
    BlockList (setFree memory block.address (if free then 1 else 0))
      (pre ++ { block with free } :: post) := by
  obtain ⟨front, _, back⟩ := linked_append.mp valid.linked
  obtain ⟨earlier, later⟩ := valid.covers.around
  have large := (valid.sizes block (by simp)).1
  refine linked_append.mpr ⟨?_, valid.header.reflag free, ?_⟩
  · refine front.imp fun other member _ _ kept => kept.congr fun position lower upper => ?_
    have := earlier other member
    have := (valid.sizes other (by simp [member])).1
    exact Memory.store8_other (by omega)
  · refine back.imp fun other member _ _ kept => kept.congr fun position lower upper => ?_
    have := later other member
    exact Memory.store8_other (by omega)

theorem splice {old fresh : List Block}
    (valid : Shaped memory start size (pre ++ old ++ post))
    (same : ∀ left right, Covers left old right → Covers left fresh right)
    (linked : BlockList after (pre ++ fresh ++ post))
    (sizes : ∀ item ∈ fresh, 16 ≤ item.size ∧ item.size % 8 = 0) :
    Shaped after start size (pre ++ fresh ++ post) where
  covers := by
    obtain ⟨right, inner, behind⟩ := tiles_append.mp valid.covers
    obtain ⟨left, front, middle⟩ := tiles_append.mp inner
    exact tiles_append.mpr
      ⟨right, tiles_append.mpr ⟨left, front, same left right middle⟩, behind⟩
  linked := linked
  sizes := by
    intro item member
    rcases List.mem_append.mp member with front | behind
    · rcases List.mem_append.mp front with before | middle
      · exact valid.sizes item (by simp [before])
      · exact sizes item middle
    · exact valid.sizes item (by simp [behind])
  startPositive := valid.startPositive
  startAligned := valid.startAligned
  sizePositive := valid.sizePositive
  bounded := valid.bounded

end Shaped

theorem WellFormed.used_lt (valid : WellFormed heap blocks) : heap.used < 4294967296 := by
  have := covers_allocated_le valid.covers
  have := valid.used
  have := valid.bounded
  omega

/-- The heap that `init_kheap` leaves is one free block. -/
theorem initHeap_wellFormed (memory : Memory) (start size : Nat) :
    WellFormed (initHeap memory start size) [⟨0xD0000000, 0x10000000, true⟩] where
  covers := by
    refine ⟨rfl, by norm_num, ?_⟩
    simp only [Tiles, initHeap]
  linked := by
    refine ⟨⟨?_, ?_, ?_, ?_⟩, trivial⟩ <;>
      simp only [initHeap, writeFirstBlock, setPrev, setNext, setFree, setSize, blockSize,
        Heap.next, Heap.prev, headAddress]
    · rw [Memory.load32_store32_other (by omega), Memory.load32_store32_other (by omega),
        Memory.load32_store8_other (by omega), Memory.load32_store32_same (by omega)]
    · rw [Memory.store32_other (by omega), Memory.store32_other (by omega), Memory.store8_same]
      simp
    · rw [Memory.load32_store32_other (by omega), Memory.load32_store32_same (by omega)]
    · rw [Memory.load32_store32_same (by omega)]
  sizes := by
    intro block member
    rw [List.mem_singleton.mp member]
    norm_num
  separated := .singleton _
  used := by simp [initHeap, headerSize, allocatedBytes]
  startPositive := by norm_num [initHeap]
  startAligned := by norm_num [initHeap]
  sizePositive := by norm_num [initHeap]
  bounded := by norm_num [initHeap]

end Helios.Heap
