import Helios.Heap.Representation

namespace Helios.Heap

open Helios.Data

/-! `kmalloc`: first fit, with the rest of a large block split off. -/

/-- What becomes of the free block that serves a request of `size` bytes. -/
def carve (size : Nat) (block : Block) : List Block :=
  if size + 24 ≤ block.size then
    [⟨block.address, size, false⟩, ⟨block.address + size, block.size - size, true⟩]
  else [⟨block.address, block.size, false⟩]

section

variable {memory : Memory} {size current rest following position value : Nat}

theorem linkPrev_other
    (outside : following ≠ 0 → position < following + 12 ∨ following + 16 ≤ position) :
    linkPrev memory following value position = memory position := by
  unfold linkPrev
  split
  · rename_i linked
    have := outside linked
    exact Memory.store32_other (by omega)
  · rfl

theorem load32_linkPrev_other
    (apart : following ≠ 0 → position + 4 ≤ following + 12 ∨ following + 16 ≤ position) :
    (linkPrev memory following value).load32 position = memory.load32 position := by
  apply Memory.load32_congr
  intro byte lower upper
  apply linkPrev_other
  intro linked
  have := apart linked
  omega

/-- The memory after a split, with the reads of the source resolved. -/
def splitMemory (memory : Memory) (size current rest following : Nat) : Memory :=
  let fresh := ((((memory.store32 (current + size) rest).store8 (current + size + 4) 1).store32
    (current + size + 8) following).store32 (current + size + 12) current)
  ((linkPrev fresh following (current + size)).store32 current size).store32
    (current + 8) (current + size)

theorem splitBlock_eq (room : 16 ≤ size) (bounded : current + size < 4294967296)
    (found : next memory current = following)
    (remaining : sub32 (blockSize memory current) size = rest) :
    splitBlock memory size current = splitMemory memory size current rest following := by
  simp only [splitBlock, splitMemory, u32_of_lt bounded, setSize, setFree, setNext, setPrev,
    remaining, next]
  simp only [next] at found
  rw [Memory.load32_store32_other (by omega), Memory.load32_store32_other (by omega),
    Memory.load32_store8_other (by omega), Memory.load32_store32_other (by omega), found]

theorem splitMemory_other
    (outsideCurrent : position < current ∨ current + 16 ≤ position)
    (outsideNew : position < current + size ∨ current + size + 16 ≤ position)
    (outsideNext : following ≠ 0 → position < following + 12 ∨ following + 16 ≤ position) :
    splitMemory memory size current rest following position = memory position := by
  simp only [splitMemory]
  rw [Memory.store32_other (by omega), Memory.store32_other (by omega),
    linkPrev_other outsideNext, Memory.store32_other (by omega), Memory.store32_other (by omega),
    Memory.store8_other (by omega), Memory.store32_other (by omega)]

variable {previous : Nat}

theorem splitMemory_current (room : 16 ≤ size) (bounded : current + size < 4294967296)
    (behind : following ≠ 0 → current + size ≤ following)
    (linked : prev memory current = previous) :
    Header ((splitMemory memory size current rest following).store8 (current + 4) 0)
      ⟨current, size, false⟩ previous (current + size) := by
  refine ⟨?_, ?_, ?_, ?_⟩ <;> simp only [splitMemory, blockSize, Heap.next, Heap.prev]
  · rw [Memory.load32_store8_other (by omega), Memory.load32_store32_other (by omega),
      Memory.load32_store32_same (by omega)]
  · rw [Memory.store8_same]
    rfl
  · rw [Memory.load32_store8_other (by omega), Memory.load32_store32_same (by omega)]
  · rw [Memory.load32_store8_other (by omega), Memory.load32_store32_other (by omega),
      Memory.load32_store32_other (by omega), load32_linkPrev_other (by omega),
      Memory.load32_store32_other (by omega), Memory.load32_store32_other (by omega),
      Memory.load32_store8_other (by omega), Memory.load32_store32_other (by omega)]
    exact linked

theorem splitMemory_fresh (room : 16 ≤ size) (bounded : current + size < 4294967296)
    (behind : following ≠ 0 → current + size + 16 ≤ following)
    (restBound : rest < 4294967296) (followingBound : following < 4294967296) :
    Header ((splitMemory memory size current rest following).store8 (current + 4) 0)
      ⟨current + size, rest, true⟩ current following := by
  refine ⟨?_, ?_, ?_, ?_⟩ <;> simp only [splitMemory, blockSize, Heap.next, Heap.prev]
  · rw [Memory.load32_store8_other (by omega), Memory.load32_store32_other (by omega),
      Memory.load32_store32_other (by omega), load32_linkPrev_other (by omega),
      Memory.load32_store32_other (by omega), Memory.load32_store32_other (by omega),
      Memory.load32_store8_other (by omega), Memory.load32_store32_same restBound]
  · rw [Memory.store8_other (by omega), Memory.store32_other (by omega),
      Memory.store32_other (by omega), linkPrev_other (by omega), Memory.store32_other (by omega),
      Memory.store32_other (by omega), Memory.store8_same]
    rfl
  · rw [Memory.load32_store8_other (by omega), Memory.load32_store32_other (by omega),
      Memory.load32_store32_other (by omega), load32_linkPrev_other (by omega),
      Memory.load32_store32_other (by omega), Memory.load32_store32_same followingBound]
  · rw [Memory.load32_store8_other (by omega), Memory.load32_store32_other (by omega),
      Memory.load32_store32_other (by omega), load32_linkPrev_other (by omega),
      Memory.load32_store32_same (by omega)]

/-- The block behind a split points back to the new block. -/
theorem splitMemory_following (bounded : current + size < 4294967296)
    (linked : following ≠ 0) (behind : current + size + 16 ≤ following) (room : 16 ≤ size) :
    prev ((splitMemory memory size current rest following).store8 (current + 4) 0) following =
      current + size := by
  simp only [splitMemory, Heap.prev]
  rw [Memory.load32_store8_other (by omega), Memory.load32_store32_other (by omega),
    Memory.load32_store32_other (by omega), linkPrev, if_pos linked, setPrev,
    Memory.load32_store32_same bounded]

end

namespace WellFormed

variable {heap : KernelHeap} {block : Block} {pre post : List Block}

/-- A free block leaves its whole size for the `used` counter. -/
theorem used_add_le (valid : WellFormed heap (pre ++ block :: post)) (free : block.free = true) :
    heap.used + block.size ≤ 16 + heap.size := by
  obtain ⟨middle, left, place, _, right⟩ := tiles_append.mp valid.covers
  have before := covers_allocated_le left
  have after := covers_allocated_le right
  have ordered := left.start_le_stop
  have rest := right.start_le_stop
  have counted := valid.used
  simp only [allocatedBytes_append, allocatedBytes, free, if_true] at counted
  omega

end WellFormed

section

variable {heap : KernelHeap} {block : Block} {pre post : List Block} {size position : Nat}

theorem takeBlock_split (valid : WellFormed heap (pre ++ block :: post))
    (free : block.free = true) (room : 16 ≤ size) (large : size + 24 ≤ block.size) :
    takeBlock heap size block.address =
      { heap with
        memory := (splitMemory heap.memory size block.address (block.size - size)
          (headAddress Block.address post 0)).store8 (block.address + 4) 0
        used := heap.used + size } := by
  have bounds := valid.blockBounds List.mem_append_cons_self
  have limit := valid.bounded
  have header := valid.header
  have accounted := valid.used_add_le free
  have threshold : u32 (u32 (size + headerSize) + 8) = size + 24 := by
    unfold headerSize
    rw [u32_of_lt (by omega : size + 16 < 4294967296), u32_of_lt (by omega)]
  have remaining : sub32 (blockSize heap.memory block.address) size = block.size - size := by
    rw [header.size]
    exact sub32_of_le (by omega) (by omega)
  have served : Header ((splitMemory heap.memory size block.address (block.size - size)
      (headAddress Block.address post 0)).store8 (block.address + 4) 0)
      ⟨block.address, size, false⟩ _ _ :=
    splitMemory_current room (by omega)
      (fun linked => by have := valid.following_eq linked; omega) header.prev
  simp only [takeBlock, threshold, header.size, large, if_true,
    splitBlock_eq room (by omega) header.next remaining, setFree, served.size]
  rw [u32_of_lt (by omega)]

theorem takeBlock_whole (valid : WellFormed heap (pre ++ block :: post))
    (free : block.free = true) (small : ¬ size + 24 ≤ block.size) (fits : size ≤ block.size) :
    takeBlock heap size block.address =
      { heap with
        memory := heap.memory.store8 (block.address + 4) 0
        used := heap.used + block.size } := by
  have bounds := valid.blockBounds List.mem_append_cons_self
  have limit := valid.bounded
  have header := valid.header
  have accounted := valid.used_add_le free
  have start := valid.startPositive
  have threshold : u32 (u32 (size + headerSize) + 8) = size + 24 := by
    unfold headerSize
    rw [u32_of_lt (by omega : size + 16 < 4294967296), u32_of_lt (by omega)]
  have kept : blockSize (heap.memory.store8 (block.address + 4) 0) block.address = block.size :=
    (Memory.load32_store8_other (by omega)).trans header.size
  simp only [takeBlock, threshold, header.size, small, if_false, setFree, kept]
  rw [u32_of_lt (by omega)]

theorem carve_split_linked (valid : WellFormed heap (pre ++ block :: post)) (room : 16 ≤ size)
    (large : size + 24 ≤ block.size) :
    BlockList ((splitMemory heap.memory size block.address (block.size - size)
        (headAddress Block.address post 0)).store8 (block.address + 4) 0)
      (pre ++ [⟨block.address, size, false⟩,
        ⟨block.address + size, block.size - size, true⟩] ++ post) := by
  have bounds := valid.blockBounds List.mem_append_cons_self
  have limit := valid.bounded
  have header := valid.header
  have behind := fun linked => valid.following_eq linked
  obtain ⟨front, _, back⟩ := linked_append.mp valid.linked
  obtain ⟨earlier, later⟩ := valid.covers.around
  refine linked_append.mpr ⟨linked_append.mpr ⟨?_, ?_, ?_, trivial⟩, ?_⟩
  · refine front.imp fun other member _ _ kept => kept.congr fun position lower upper => ?_
    have := earlier other member
    have := (valid.sizes other (by simp [member])).1
    rw [Memory.store8_other (by omega)]
    exact splitMemory_other (by omega) (by omega)
      (fun linked => by have := behind linked; omega)
  · exact splitMemory_current room (by omega) (fun linked => by have := behind linked; omega)
      header.prev
  · exact splitMemory_fresh room (by omega) (fun linked => by have := behind linked; omega)
      (by omega) valid.following_bound
  · rw [show pre ++ [Block.mk block.address size false,
        ⟨block.address + size, block.size - size, true⟩] =
        (pre ++ [⟨block.address, size, false⟩]) ++
          [⟨block.address + size, block.size - size, true⟩] by simp,
      lastAddress_append_singleton]
    refine linked_relink back valid.following_apart (fun more position lower outside => ?_)
      (fun more => ?_)
    · have := behind (valid.following_ne_zero more)
      rw [Memory.store8_other (by omega)]
      exact splitMemory_other (by omega) (by omega) (fun _ => outside)
    · have linked := valid.following_ne_zero more
      have := behind linked
      exact splitMemory_following (by omega) linked (by omega) room

theorem carve_covers (room : 16 ≤ size) {left right : Nat} (covers : Covers left [block] right) :
    Covers left (carve size block) right := by
  obtain ⟨place, positive, stop⟩ := covers
  unfold carve
  split
  · refine ⟨place, by simp only; omega, by simp only; omega, by simp only; omega, ?_⟩
    simp only [Tiles] at stop ⊢
    omega
  · exact ⟨place, positive, stop⟩

theorem carve_separated (valid : Separated (pre ++ block :: post)) (free : block.free = true) :
    Separated (pre ++ carve size block ++ post) := by
  obtain ⟨left, right, _, behind⟩ := separated_cut.mp valid
  unfold carve
  split
  · rw [List.append_assoc]
    refine separated_cut.mpr ⟨left, ?_, by simp, by simp⟩
    refine separated_cons.mpr ⟨right, ?_⟩
    simpa [free] using behind
  · rw [List.append_assoc]
    exact separated_cut.mpr ⟨left, right, by simp, by simp⟩

theorem carve_sizes (room : 16 ≤ size) (aligned : size % 8 = 0)
    (sizes : 16 ≤ block.size ∧ block.size % 8 = 0) :
    ∀ item ∈ carve size block, 16 ≤ item.size ∧ item.size % 8 = 0 := by
  unfold carve
  split
  · intro item member
    simp only [List.mem_cons, List.not_mem_nil, or_false] at member
    rcases member with rfl | rfl <;> simp only <;> omega
  · intro item member
    rw [List.mem_singleton.mp member]
    exact sizes

/-- The allocated block of a carved block, and the only one. -/
theorem mem_carve {item : Block} (allocated : item.free = false) :
    item ∈ carve size block ↔
      item = ⟨block.address, if size + 24 ≤ block.size then size else block.size, false⟩ := by
  unfold carve
  split
  · simp only [List.mem_cons, List.not_mem_nil, or_false, or_iff_left_iff_imp]
    rintro rfl
    simp at allocated
  · exact List.mem_singleton

/-- Serving a request keeps the representation invariant. -/
theorem takeBlock_wellFormed (valid : WellFormed heap (pre ++ block :: post))
    (free : block.free = true) (room : 16 ≤ size) (aligned : size % 8 = 0)
    (fits : size ≤ block.size) :
    WellFormed (takeBlock heap size block.address) (pre ++ carve size block ++ post) := by
  have cut : Shaped heap.memory heap.start heap.size (pre ++ [block] ++ post) := by
    simpa using valid.toShaped
  have covers : ∀ left right, Covers left [block] right → Covers left (carve size block) right :=
    fun _ _ => carve_covers room
  have sizes := carve_sizes room aligned (valid.sizes block (by simp))
  have separated : Separated (pre ++ carve size block ++ post) :=
    carve_separated valid.separated free
  have counted := valid.used
  simp only [allocatedBytes_append, allocatedBytes, free, if_true] at counted
  by_cases large : size + 24 ≤ block.size
  · have linked := carve_split_linked valid room large
    rw [takeBlock_split valid free room large]
    simp only [carve, large, if_true] at covers sizes separated ⊢
    refine ⟨cut.splice covers linked sizes, separated, ?_⟩
    simp only [allocatedBytes_append, allocatedBytes]
    simp only [Bool.false_eq_true, if_true, if_false]
    omega
  · have linked := valid.reflag_linked false
    rw [takeBlock_whole valid free large fits]
    simp only [carve, large, if_false] at covers sizes separated ⊢
    refine ⟨cut.splice covers (by simpa [setFree] using linked) sizes, separated, ?_⟩
    simp only [allocatedBytes_append, allocatedBytes]
    simp only [Bool.false_eq_true, if_false]
    omega

/-- Serving a request writes to no payload of another block. -/
theorem takeBlock_other (valid : WellFormed heap (pre ++ block :: post))
    (free : block.free = true) (room : 16 ≤ size) (fits : size ≤ block.size)
    {other : Block} (member : other ∈ pre ++ post)
    (lower : other.address + 16 ≤ position) (upper : position < other.address + other.size) :
    (takeBlock heap size block.address).memory position = heap.memory position := by
  have sizes := (valid.sizes block (by simp)).1
  have apart := valid.covers.beside member
  by_cases large : size + 24 ≤ block.size
  · rw [takeBlock_split valid free room large]
    simp only
    rw [Memory.store8_other (by omega)]
    refine splitMemory_other (by omega) (by omega) (fun linked => ?_)
    have := valid.following_eq linked
    omega
  · rw [takeBlock_whole valid free large fits]
    exact Memory.store8_other (by omega)

/-- A block that can serve a request of `size` bytes, header included. -/
abbrev Fits (size : Nat) (block : Block) : Prop := block.free = true ∧ size ≤ block.size

/-- The search visits the blocks in order and takes the first that fits. -/
theorem kmallocFrom_eq {steps : Nat} (valid : WellFormed heap (pre ++ post))
    (enough : post.length < steps) :
    (kmallocFrom steps heap size (headAddress Block.address post 0) = some (heap, 0) ∧
      ∀ block ∈ post, ¬ Fits size block) ∨
    ∃ front block back, post = front ++ block :: back ∧ Fits size block ∧
      (∀ earlier ∈ front, ¬ Fits size earlier) ∧
      kmallocFrom steps heap size (headAddress Block.address post 0) =
        some (takeBlock heap size block.address, block.address + 16) := by
  induction post generalizing pre steps with
  | nil =>
      obtain ⟨steps, rfl⟩ := Nat.exists_eq_succ_of_ne_zero (Nat.ne_zero_of_lt enough)
      exact .inl ⟨by simp [kmallocFrom, headAddress], by simp⟩
  | cons first rest ih =>
      obtain ⟨steps, rfl⟩ := Nat.exists_eq_succ_of_ne_zero (Nat.ne_zero_of_lt enough)
      have header := valid.header
      have bounds := valid.blockBounds List.mem_append_cons_self
      have limit := valid.bounded
      have positive := valid.startPositive
      have large := (valid.sizes first (by simp)).1
      have nonzero : first.address ≠ 0 := by omega
      have pointer : u32 (first.address + headerSize) = first.address + 16 :=
        u32_of_lt (by unfold headerSize; omega)
      simp only [headAddress, kmallocFrom, nonzero, if_false, header.isFree_eq, header.size,
        header.next, pointer, ge_iff_le]
      by_cases fits : Fits size first
      · exact .inr ⟨[], first, rest, rfl, fits, by simp, if_pos fits⟩
      · rw [if_neg fits]
        have shifted : WellFormed heap ((pre ++ [first]) ++ rest) := by simpa using valid
        have shorter : rest.length < steps := by simpa using enough
        rcases ih shifted shorter with
          ⟨result, none⟩ | ⟨front, block, back, rfl, fit, earlier, result⟩
        · refine .inl ⟨result, ?_⟩
          intro block member
          rcases List.mem_cons.mp member with rfl | later
          · exact fits
          · exact none block later
        · refine .inr ⟨first :: front, block, back, rfl, fit, ?_, result⟩
          intro block member
          rcases List.mem_cons.mp member with rfl | later
          · exact fits
          · exact earlier block later

end

theorem requestSize_eq {size : Nat} (bound : size ≤ 0xFFFFFFE8) :
    requestSize size = (size + 7) / 8 * 8 + 16 := by
  unfold requestSize headerSize
  have rounded : (size + 7) &&& 0xFFFFFFF8 = (size + 7) / 8 * 8 :=
    and_highMask (show size + 7 < 2 ^ (29 + 3) by omega)
  rw [u32_of_lt (by omega : size + 7 < 4294967296), rounded, u32_of_lt (by omega)]

/-- What `kmalloc` does on a well-formed heap: it fails without an effect when
no block fits, and otherwise carves the first block that fits. -/
theorem kmalloc_eq {heap : KernelHeap} {blocks : List Block} (size : Nat)
    (valid : WellFormed heap blocks) :
    (kmalloc heap size = some (heap, 0) ∧ ∀ block ∈ blocks, ¬ Fits (requestSize size) block) ∨
    ∃ pre block post, blocks = pre ++ block :: post ∧ Fits (requestSize size) block ∧
      (∀ earlier ∈ pre, ¬ Fits (requestSize size) earlier) ∧
      kmalloc heap size =
        some (takeBlock heap (requestSize size) block.address, block.address + 16) := by
  unfold kmalloc
  rw [← valid.head_eq_start]
  exact kmallocFrom_eq (show WellFormed heap ([] ++ blocks) from valid) valid.length_lt

@[simp] theorem takeBlock_start (heap : KernelHeap) (size current : Nat) :
    (takeBlock heap size current).start = heap.start := by
  cases heap
  rfl

@[simp] theorem takeBlock_size (heap : KernelHeap) (size current : Nat) :
    (takeBlock heap size current).size = heap.size := by
  cases heap
  rfl

end Helios.Heap
