import Helios.Heap.Malloc

namespace Helios.Heap

open Helios.Data

/-! `kfree`: mark the block as free and merge it with free neighbours.

Both merges of the source are one operation on two neighbouring blocks: the
first takes over the size and the forward link of the second. -/

/-- A block followed by the list behind it, merged when the next block is free. -/
def absorbNext (block : Block) : List Block → List Block
  | [] => [block]
  | second :: post =>
      if second.free then { block with size := block.size + second.size } :: post
      else block :: second :: post

/-- The list before a block joined with the list from that block on, merged
when the last block before it is free. -/
def joinPrev : List Block → List Block → List Block
  | [], behind => behind
  | [first], [] => [first]
  | [first], block :: post =>
      if first.free then { first with size := first.size + block.size } :: post
      else first :: block :: post
  | first :: second :: pre, behind => first :: joinPrev (second :: pre) behind

/-- The block list after freeing `block`. -/
def release (pre : List Block) (block : Block) (post : List Block) : List Block :=
  joinPrev pre (absorbNext { block with free := true } post)

theorem joinPrev_append_singleton (pre : List Block) (first : Block) (behind : List Block) :
    joinPrev (pre ++ [first]) behind = pre ++ joinPrev [first] behind := by
  induction pre with
  | nil => rfl
  | cons head rest ih =>
      cases rest with
      | nil => rfl
      | cons second rest =>
          simp only [List.cons_append, joinPrev] at ih ⊢
          rw [ih]

def absorbMemory (memory : Memory) (block size following : Nat) : Memory :=
  linkPrev ((memory.store32 block size).store32 (block + 8) following) following block

section

variable {memory : Memory} {start size position following : Nat}
variable {first block second : Block} {pre post : List Block}

theorem absorbMemory_other {address : Nat}
    (outside : position < address ∨ address + 16 ≤ position)
    (outsideNext : following ≠ 0 → position < following + 12 ∨ following + 16 ≤ position) :
    absorbMemory memory address size following position = memory position := by
  unfold absorbMemory
  rw [linkPrev_other outsideNext, Memory.store32_other (by omega), Memory.store32_other (by omega)]

theorem absorb_linked (valid : Shaped memory start size (pre ++ first :: second :: post)) :
    BlockList (absorbMemory memory first.address (first.size + second.size)
        (headAddress Block.address post 0))
      (pre ++ { first with size := first.size + second.size } :: post) := by
  have regroup : pre ++ first :: second :: post = (pre ++ [first]) ++ second :: post := by simp
  have inner : Shaped memory start size ((pre ++ [first]) ++ second :: post) := regroup ▸ valid
  have bounds := inner.blockBounds List.mem_append_cons_self
  have limit := valid.bounded
  have header := valid.header
  have seam : second.address = first.address + first.size :=
    valid.following_eq (valid.following_ne_zero (by simp))
  have firstLarge := (valid.sizes first (by simp)).1
  have secondLarge := (valid.sizes second (by simp)).1
  have behind := fun linked => inner.following_eq linked
  have followingBound := inner.following_bound
  obtain ⟨front, _, back⟩ := linked_append.mp valid.linked
  obtain ⟨earlier, later⟩ := valid.covers.around
  refine linked_append.mpr ⟨?_, ⟨?_, ?_, ?_, ?_⟩, ?_⟩
  · refine front.imp fun other member _ _ kept => kept.congr fun position lower upper => ?_
    have := earlier other member
    have := (valid.sizes other (by simp [member])).1
    exact absorbMemory_other (by omega) (fun linked => by have := behind linked; omega)
  · simp only [blockSize, absorbMemory]
    rw [load32_linkPrev_other (fun linked => by have := behind linked; omega),
      Memory.load32_store32_other (by omega), Memory.load32_store32_same (by omega)]
  · simp only [absorbMemory]
    rw [linkPrev_other (fun linked => by have := behind linked; omega),
      Memory.store32_other (by omega), Memory.store32_other (by omega)]
    exact header.flag
  · simp only [Heap.next, absorbMemory]
    rw [load32_linkPrev_other (fun linked => by have := behind linked; omega),
      Memory.load32_store32_same followingBound]
  · simp only [Heap.prev, absorbMemory]
    rw [load32_linkPrev_other (fun linked => by have := behind linked; omega),
      Memory.load32_store32_other (by omega), Memory.load32_store32_other (by omega)]
    exact header.prev
  · refine linked_relink back.2 inner.following_apart (fun more position lower outside => ?_)
      (fun more => ?_)
    · have := behind (inner.following_ne_zero more)
      exact absorbMemory_other (by omega) (fun _ => outside)
    · simp only [Heap.prev, absorbMemory, linkPrev, if_pos (inner.following_ne_zero more), setPrev]
      exact Memory.load32_store32_same (by omega)

theorem absorb_shaped (valid : Shaped memory start size (pre ++ first :: second :: post)) :
    Shaped (absorbMemory memory first.address (first.size + second.size)
        (headAddress Block.address post 0)) start size
      (pre ++ { first with size := first.size + second.size } :: post) := by
  have cut : Shaped memory start size (pre ++ [first, second] ++ post) := by simpa using valid
  have firstSize := valid.sizes first (by simp)
  have secondSize := valid.sizes second (by simp)
  have joined : Shaped (absorbMemory memory first.address (first.size + second.size)
      (headAddress Block.address post 0)) start size
      (pre ++ [{ first with size := first.size + second.size }] ++ post) := cut.splice ?_ ?_ ?_
  · simpa using joined
  · rintro left right ⟨place, _, _, _, stop⟩
    simp only [Tiles] at stop ⊢
    omega
  · simpa using absorb_linked valid
  · intro item member
    rw [List.mem_singleton.mp member]
    simp only
    omega

/-- The byte lies outside the headers of the list, or in the word of a flag. -/
def Spared (blocks : List Block) (position : Nat) : Prop :=
  ∀ header ∈ blocks, position < header.address ∨
    (header.address + 4 ≤ position ∧ position < header.address + 8) ∨ header.address + 16 ≤ position

/-- Bytes of a payload lie outside every header. -/
theorem Shaped.spared (valid : Shaped memory start size blocks) {other : Block}
    (member : other ∈ blocks) (lower : other.address + 16 ≤ position)
    (upper : position < other.address + other.size) : Spared blocks position := by
  intro header inside
  have large := (valid.sizes header inside).1
  by_cases same : other = header
  · subst same
    exact .inr (.inr lower)
  · have apart := valid.covers.apart member inside same
    omega

/-- Absorbing a block writes sizes and links only. -/
theorem absorb_spared (valid : Shaped memory start size (pre ++ first :: second :: post))
    (spared : Spared (pre ++ first :: second :: post) position) :
    absorbMemory memory first.address (first.size + second.size)
      (headAddress Block.address post 0) position = memory position := by
  have atFirst := spared first (by simp)
  have unlinked : linkPrev ((memory.store32 first.address (first.size + second.size)).store32
      (first.address + 8) (headAddress Block.address post 0)) (headAddress Block.address post 0)
      first.address position = ((memory.store32 first.address (first.size + second.size)).store32
      (first.address + 8) (headAddress Block.address post 0)) position := by
    apply linkPrev_other
    intro linked
    cases post with
    | nil => exact absurd rfl linked
    | cons third rest =>
        have atThird := spared third (by simp)
        simp only [headAddress]
        omega
  rw [absorbMemory, unlinked, Memory.store32_other (by omega), Memory.store32_other (by omega)]

theorem mergeNext_absorb (valid : Shaped memory start size (pre ++ block :: second :: post))
    (free : second.free = true) :
    mergeNext memory block.address =
      absorbMemory memory block.address (block.size + second.size)
        (headAddress Block.address post 0) := by
  have regroup : pre ++ block :: second :: post = (pre ++ [block]) ++ second :: post := by simp
  have inner : Shaped memory start size ((pre ++ [block]) ++ second :: post) := regroup ▸ valid
  have header := valid.header
  have secondHeader := inner.header
  have nonzero := valid.following_ne_zero (by simp)
  have seam := valid.following_eq nonzero
  have bounds := inner.blockBounds List.mem_append_cons_self
  have limit := valid.bounded
  have large := (valid.sizes block (by simp)).1
  have forward : next memory block.address = second.address := header.next
  have total : u32 (block.size + second.size) = block.size + second.size := by
    simp only [headAddress] at seam
    exact u32_of_lt (by omega)
  simp only [headAddress] at nonzero seam
  have kept : next (memory.store32 block.address (block.size + second.size)) block.address =
      second.address := (Memory.load32_store32_other (by omega)).trans forward
  have beyond : next (memory.store32 block.address (block.size + second.size)) second.address =
      headAddress Block.address post 0 :=
    (Memory.load32_store32_other (by omega)).trans secondHeader.next
  have linked : next ((memory.store32 block.address (block.size + second.size)).store32
      (block.address + 8) (headAddress Block.address post 0)) block.address =
      headAddress Block.address post 0 := Memory.load32_store32_same inner.following_bound
  simp only [mergeNext, forward, secondHeader.isFree_eq, free, nonzero, ne_eq,
    not_false_eq_true, and_self, if_true, header.size, secondHeader.size, total, setSize, setNext,
    kept, beyond, linked, absorbMemory]

theorem mergeNext_skip (valid : Shaped memory start size (pre ++ block :: post))
    (used : ∀ second ∈ post.head?, second.free = false) :
    mergeNext memory block.address = memory := by
  have forward := valid.header.next
  unfold mergeNext
  rw [if_neg]
  rintro ⟨linked, free⟩
  rw [forward] at linked free
  cases post with
  | nil => exact linked rfl
  | cons second rest =>
      have regroup : pre ++ block :: second :: rest = (pre ++ [block]) ++ second :: rest := by simp
      have inner : Shaped memory start size ((pre ++ [block]) ++ second :: rest) := regroup ▸ valid
      have flag := inner.header.isFree_eq
      simp only [headAddress] at free
      rw [flag, used second rfl] at free
      exact absurd free (by simp)

theorem mergePrev_absorb (valid : Shaped memory start size (pre ++ first :: block :: post))
    (free : first.free = true) :
    mergePrev memory block.address =
      absorbMemory memory first.address (first.size + block.size)
        (headAddress Block.address post 0) := by
  have regroup : pre ++ first :: block :: post = (pre ++ [first]) ++ block :: post := by simp
  have inner : Shaped memory start size ((pre ++ [first]) ++ block :: post) := regroup ▸ valid
  have header := valid.header
  have blockHeader := inner.header
  have backward : prev memory block.address = first.address :=
    blockHeader.prev.trans (lastAddress_append_singleton first)
  have seam : block.address = first.address + first.size :=
    valid.following_eq (valid.following_ne_zero (by simp))
  have firstBounds := valid.blockBounds List.mem_append_cons_self
  have bounds := inner.blockBounds List.mem_append_cons_self
  have limit := valid.bounded
  have positive := valid.startPositive
  have large := (valid.sizes first (by simp)).1
  have nonzero : first.address ≠ 0 := by omega
  have total : u32 (first.size + block.size) = first.size + block.size := u32_of_lt (by omega)
  have keptPrev : prev (memory.store32 first.address (first.size + block.size)) block.address =
      first.address := (Memory.load32_store32_other (by omega)).trans backward
  have keptNext : next (memory.store32 first.address (first.size + block.size)) block.address =
      headAddress Block.address post 0 :=
    (Memory.load32_store32_other (by omega)).trans blockHeader.next
  have laterPrev : prev ((memory.store32 first.address (first.size + block.size)).store32
      (first.address + 8) (headAddress Block.address post 0)) block.address = first.address :=
    (Memory.load32_store32_other (by omega)).trans keptPrev
  have laterNext : next ((memory.store32 first.address (first.size + block.size)).store32
      (first.address + 8) (headAddress Block.address post 0)) block.address =
      headAddress Block.address post 0 :=
    (Memory.load32_store32_other (by omega)).trans keptNext
  simp only [mergePrev, backward, header.isFree_eq, free, nonzero, ne_eq, not_false_eq_true,
    and_self, if_true, header.size, blockHeader.size, total, setSize, setNext, keptPrev, keptNext,
    laterPrev, laterNext, absorbMemory]

theorem mergePrev_skip (valid : Shaped memory start size (pre ++ block :: post))
    (used : ∀ first ∈ pre.getLast?, first.free = false) :
    mergePrev memory block.address = memory := by
  have backward := valid.header.prev
  unfold mergePrev
  rw [if_neg]
  rintro ⟨linked, free⟩
  rw [backward] at linked free
  rcases List.eq_nil_or_concat' pre with rfl | ⟨front, first, rfl⟩
  · exact linked rfl
  · rw [lastAddress_append_singleton] at free
    have regroup : front ++ [first] ++ block :: post = front ++ first :: block :: post := by simp
    have outer : Shaped memory start size (front ++ first :: block :: post) := regroup ▸ valid
    rw [outer.header.isFree_eq, used first (by simp)] at free
    exact absurd free (by simp)

/-- The block that `absorbNext` leaves in front keeps its address and flag, and
an allocated block behind it is still there. -/
theorem absorbNext_cons (block : Block) (post : List Block) :
    ∃ merged rest, absorbNext block post = merged :: rest ∧ merged.address = block.address ∧
      merged.free = block.free ∧ ∀ other ∈ post, other.free = false → other ∈ rest := by
  cases post with
  | nil => exact ⟨block, [], rfl, rfl, rfl, by simp⟩
  | cons second rest =>
      cases free : second.free with
      | false =>
          exact ⟨block, second :: rest, by simp [absorbNext, free], rfl, rfl,
            fun other member _ => member⟩
      | true =>
          refine ⟨{ block with size := block.size + second.size }, rest,
            by simp only [absorbNext, free, if_true], rfl, rfl, ?_⟩
          intro other member allocated
          rcases List.mem_cons.mp member with rfl | later
          · simp [free] at allocated
          · exact later

theorem mergeNext_shaped (valid : Shaped memory start size (pre ++ block :: post)) :
    Shaped (mergeNext memory block.address) start size (pre ++ absorbNext block post) := by
  cases post with
  | nil =>
      rw [mergeNext_skip valid (by simp)]
      exact valid
  | cons second rest =>
      cases free : second.free with
      | false =>
          rw [mergeNext_skip valid (by simpa using free)]
          simpa [absorbNext, free] using valid
      | true =>
          rw [mergeNext_absorb valid free]
          simpa only [absorbNext, free, if_true] using absorb_shaped valid

theorem mergePrev_shaped (valid : Shaped memory start size (pre ++ block :: post)) :
    Shaped (mergePrev memory block.address) start size (joinPrev pre (block :: post)) := by
  rcases List.eq_nil_or_concat' pre with rfl | ⟨front, first, rfl⟩
  · rw [mergePrev_skip valid (by simp)]
    exact valid
  · rw [joinPrev_append_singleton]
    cases free : first.free with
    | false =>
        rw [mergePrev_skip valid (by simpa using free)]
        simpa [joinPrev, free] using valid
    | true =>
        have regroup : front ++ [first] ++ block :: post = front ++ first :: block :: post := by
          simp
        have outer : Shaped memory start size (front ++ first :: block :: post) := regroup ▸ valid
        rw [mergePrev_absorb outer free]
        simpa only [joinPrev, free, if_true] using absorb_shaped outer

theorem mergeNext_spared (valid : Shaped memory start size (pre ++ block :: post))
    (spared : Spared (pre ++ block :: post) position) :
    mergeNext memory block.address position = memory position := by
  cases post with
  | nil => rw [mergeNext_skip valid (by simp)]
  | cons second rest =>
      cases free : second.free with
      | false => rw [mergeNext_skip valid (by simpa using free)]
      | true =>
          rw [mergeNext_absorb valid free]
          exact absorb_spared valid spared

theorem mergePrev_spared (valid : Shaped memory start size (pre ++ block :: post))
    (spared : Spared (pre ++ block :: post) position) :
    mergePrev memory block.address position = memory position := by
  rcases List.eq_nil_or_concat' pre with rfl | ⟨front, first, rfl⟩
  · rw [mergePrev_skip valid (by simp)]
  · cases free : first.free with
    | false => rw [mergePrev_skip valid (by simpa using free)]
    | true =>
        have regroup : front ++ [first] ++ block :: post = front ++ first :: block :: post := by
          simp
        have outer : Shaped memory start size (front ++ first :: block :: post) := regroup ▸ valid
        rw [mergePrev_absorb outer free]
        exact absorb_spared outer (regroup ▸ spared)

/-- Absorbing the next block adds no header. -/
theorem Spared.absorbNext (spared : Spared (pre ++ block :: post) position) :
    Spared (pre ++ Heap.absorbNext block post) position := by
  intro header inside
  rcases List.mem_append.mp inside with front | behind
  · exact spared header (by simp [front])
  · cases post with
    | nil => exact spared header (List.mem_append_right _ behind)
    | cons second rest =>
        cases free : second.free with
        | false =>
            simp only [Heap.absorbNext, free, Bool.false_eq_true, if_false] at behind
            exact spared header (List.mem_append_right _ behind)
        | true =>
            simp only [Heap.absorbNext, free, if_true] at behind
            rcases List.mem_cons.mp behind with rfl | later
            · exact spared block (by simp)
            · exact spared header (by simp [later])

theorem absorbNext_separated (block : Block) (valid : Separated post) :
    Separated (absorbNext { block with free := true } post) := by
  cases post with
  | nil => exact .singleton _
  | cons second rest =>
      obtain ⟨tail, behind⟩ := separated_cons.mp valid
      cases free : second.free with
      | false =>
          simp only [absorbNext, free, Bool.false_eq_true, if_false]
          exact separated_cons.mpr ⟨valid, by simp [free]⟩
      | true =>
          simp only [absorbNext, free, if_true]
          refine separated_cons.mpr ⟨tail, ?_⟩
          simpa [free] using behind

theorem release_separated (valid : Separated (pre ++ block :: post)) :
    Separated (release pre block post) := by
  obtain ⟨front, back, _, _⟩ := separated_cut.mp valid
  have merged := absorbNext_separated block back
  unfold release
  rcases List.eq_nil_or_concat' pre with rfl | ⟨earlier, first, rfl⟩
  · exact merged
  · obtain ⟨head, rest, shape, _, free, _⟩ := absorbNext_cons { block with free := true } post
    rw [shape] at merged ⊢
    obtain ⟨left, _, before, _⟩ := separated_cut.mp front
    obtain ⟨tail, behind⟩ := separated_cons.mp merged
    rw [joinPrev_append_singleton]
    cases flag : first.free with
    | false =>
        simp only [joinPrev, flag, Bool.false_eq_true, if_false]
        exact separated_cut.mpr ⟨left, merged, by simp [flag], by simp [flag]⟩
    | true =>
        simp only [joinPrev, flag, if_true]
        exact separated_cut.mpr ⟨left, tail, by simpa [flag] using before, by
          simpa [free] using behind⟩

/-- Freeing a block keeps exactly the other allocated blocks. -/
theorem mem_release {other : Block} (allocated : other.free = false) :
    other ∈ release pre block post ↔ other ∈ pre ++ post := by
  have behind : other ∈ absorbNext { block with free := true } post ↔ other ∈ post := by
    cases post with
    | nil =>
        simp only [absorbNext, List.mem_singleton, List.not_mem_nil, iff_false]
        rintro rfl
        simp at allocated
    | cons second rest =>
        cases free : second.free <;> simp only [absorbNext, free, Bool.false_eq_true, if_true,
          if_false, List.mem_cons] <;> grind
  unfold release
  rcases List.eq_nil_or_concat' pre with rfl | ⟨earlier, first, rfl⟩
  · simpa [joinPrev] using behind
  · obtain ⟨head, rest, shape, _, free, _⟩ := absorbNext_cons { block with free := true } post
    rw [shape] at behind ⊢
    rw [joinPrev_append_singleton]
    cases flag : first.free <;> simp only [joinPrev, flag, Bool.false_eq_true, if_true, if_false,
      List.mem_append, List.mem_cons] at behind ⊢ <;> grind

theorem allocatedBytes_release (pre : List Block) (block : Block) (post : List Block) :
    allocatedBytes (release pre block post) = allocatedBytes pre + allocatedBytes post := by
  have merged : allocatedBytes (absorbNext { block with free := true } post) =
      allocatedBytes post := by
    cases post with
    | nil => simp [absorbNext, allocatedBytes]
    | cons second rest => cases free : second.free <;> simp [absorbNext, allocatedBytes, free]
  unfold release
  rcases List.eq_nil_or_concat' pre with rfl | ⟨earlier, first, rfl⟩
  · simp [joinPrev, merged, allocatedBytes]
  · obtain ⟨head, rest, shape, _, free, _⟩ := absorbNext_cons { block with free := true } post
    rw [shape] at merged ⊢
    rw [joinPrev_append_singleton]
    simp only [allocatedBytes, free, if_true] at merged
    cases flag : first.free <;>
      simp [joinPrev, flag, allocatedBytes_append, allocatedBytes, free] <;> omega

end

section

variable {heap : KernelHeap} {block : Block} {pre post : List Block} {position : Nat}

/-- `kfree` of an allocated block, as the source computes it. -/
theorem kfree_eq (valid : WellFormed heap (pre ++ block :: post)) (allocated : block.free = false) :
    kfree heap (block.address + 16) =
      { heap with
        memory := mergePrev (mergeNext (setFree heap.memory block.address 1) block.address)
          block.address
        used := heap.used - block.size } := by
  have bounds := valid.blockBounds List.mem_append_cons_self
  have limit := valid.bounded
  have counted := valid.used
  simp only [allocatedBytes_append, allocatedBytes, allocated, Bool.false_eq_true, if_false]
    at counted
  have pointer : sub32 (block.address + 16) headerSize = block.address := by
    unfold headerSize
    rw [sub32_of_le (by omega) (by omega)]
    omega
  have kept : blockSize (setFree heap.memory block.address 1) block.address = block.size :=
    (Memory.load32_store8_other (by omega)).trans valid.header.size
  have difference : sub32 heap.used block.size = heap.used - block.size :=
    sub32_of_le valid.used_lt (by omega)
  simp [kfree, pointer, valid.header.isFree_eq, allocated, kept, difference]

theorem reflag_shaped (valid : WellFormed heap (pre ++ block :: post)) :
    Shaped (setFree heap.memory block.address 1) heap.start heap.size
      (pre ++ { block with free := true } :: post) := by
  have cut : Shaped heap.memory heap.start heap.size (pre ++ [block] ++ post) := by
    simpa using valid.toShaped
  have marked : Shaped (setFree heap.memory block.address 1) heap.start heap.size
      (pre ++ [{ block with free := true }] ++ post) :=
    cut.splice (fun _ _ covers => covers) ?_ ?_
  · simpa using marked
  · simpa using valid.reflag_linked true
  · intro item member
    rw [List.mem_singleton.mp member]
    exact valid.sizes block (by simp)

/-- Freeing an allocated block keeps the representation invariant. -/
theorem kfree_wellFormed (valid : WellFormed heap (pre ++ block :: post))
    (allocated : block.free = false) :
    WellFormed (kfree heap (block.address + 16)) (release pre block post) := by
  rw [kfree_eq valid allocated]
  have marked := reflag_shaped valid
  have forward := mergeNext_shaped marked
  obtain ⟨head, rest, shape, place, _⟩ := absorbNext_cons { block with free := true } post
  have counted := valid.used
  simp only [allocatedBytes_append, allocatedBytes, allocated, Bool.false_eq_true, if_false]
    at counted
  refine ⟨?_, release_separated valid.separated, ?_⟩
  · rw [shape] at forward
    have backward := mergePrev_shaped forward
    rw [place] at backward
    simpa only [release, shape] using backward
  · rw [allocatedBytes_release]
    simp only
    omega

/-- Freeing a block writes its own flag, and sizes and links of the list. -/
theorem kfree_spared (valid : WellFormed heap (pre ++ block :: post))
    (allocated : block.free = false) (spared : Spared (pre ++ block :: post) position) :
    (kfree heap (block.address + 16)).memory position =
      setFree heap.memory block.address 1 position := by
  have marked := reflag_shaped valid
  have forward := mergeNext_shaped marked
  have sparedMarked : Spared (pre ++ { block with free := true } :: post) position := by
    intro header inside
    rcases List.mem_append.mp inside with front | behind
    · exact spared header (by simp [front])
    · rcases List.mem_cons.mp behind with rfl | later
      · exact spared block (by simp)
      · exact spared header (by simp [later])
  have sparedNext := sparedMarked.absorbNext
  obtain ⟨head, rest, shape, place, _⟩ := absorbNext_cons { block with free := true } post
  rw [shape] at forward sparedNext
  have backward := mergePrev_spared forward sparedNext
  have kept := mergeNext_spared marked sparedMarked
  rw [place] at backward
  rw [kfree_eq valid allocated]
  calc mergePrev (mergeNext (setFree heap.memory block.address 1) block.address)
        block.address position
      = mergeNext (setFree heap.memory block.address 1) block.address position := backward
    _ = setFree heap.memory block.address 1 position := kept

/-- Freeing a block writes to no payload of another block. -/
theorem kfree_other (valid : WellFormed heap (pre ++ block :: post))
    (allocated : block.free = false) {other : Block} (member : other ∈ pre ++ post)
    (lower : other.address + 16 ≤ position) (upper : position < other.address + other.size) :
    (kfree heap (block.address + 16)).memory position = heap.memory position := by
  have inside : other ∈ pre ++ block :: post := by
    rcases List.mem_append.mp member with before | behind <;> simp [*]
  have large := (valid.sizes block (by simp)).1
  have apart := valid.covers.beside member
  rw [kfree_spared valid allocated (valid.spared inside lower upper)]
  exact Memory.store8_other (by omega)

theorem kfree_extent (heap : KernelHeap) (pointer : Nat) :
    (kfree heap pointer).start = heap.start ∧ (kfree heap pointer).size = heap.size := by
  unfold kfree
  split
  · exact ⟨rfl, rfl⟩
  · dsimp only
    split
    · exact ⟨rfl, rfl⟩
    · exact ⟨rfl, rfl⟩

@[simp] theorem kfree_start (heap : KernelHeap) (pointer : Nat) :
    (kfree heap pointer).start = heap.start := (kfree_extent heap pointer).1

@[simp] theorem kfree_size (heap : KernelHeap) (pointer : Nat) :
    (kfree heap pointer).size = heap.size := (kfree_extent heap pointer).2

end

end Helios.Heap
