import Helios.Data.Memory

namespace Helios.Heap

open Helios.Data

/-! The kernel heap of `kheap.c`.

A `block_header_t` occupies sixteen bytes in front of its payload: `size` at
offset 0, the byte `is_free` at 4 (three bytes of padding follow), `next` at 8
and `prev` at 12.  Headers live in the same memory as the payloads, so every
header access below is a load or a store of that memory.
-/

def headerSize : Nat := 16

def blockSize (memory : Memory) (block : Nat) : Nat := memory.load32 block
def isFree (memory : Memory) (block : Nat) : Bool := memory (block + 4) != 0
def next (memory : Memory) (block : Nat) : Nat := memory.load32 (block + 8)
def prev (memory : Memory) (block : Nat) : Nat := memory.load32 (block + 12)

def setSize (memory : Memory) (block value : Nat) : Memory := memory.store32 block value
def setFree (memory : Memory) (block : Nat) (value : UInt8) : Memory := memory.store8 (block + 4) value
def setNext (memory : Memory) (block value : Nat) : Memory := memory.store32 (block + 8) value
def setPrev (memory : Memory) (block value : Nat) : Memory := memory.store32 (block + 12) value

/-- `kernel_heap` together with the memory its blocks live in. -/
structure KernelHeap where
  start : Nat
  size : Nat
  used : Nat
  memory : Memory

/-- The four stores that make `block` the only block of a heap of `size` bytes. -/
def writeFirstBlock (memory : Memory) (block size : Nat) : Memory :=
  setPrev (setNext (setFree (setSize memory block size) block 1) block 0) block 0

/-- What `init_kheap` leaves in `kernel_heap` and in the heap's memory: the
block written at the caller's `start` is abandoned, and the heap restarts with
one free block at the fixed address. -/
def initHeap (memory : Memory) (start size : Nat) : KernelHeap where
  start := 0xD0000000
  size := 0x10000000
  used := headerSize
  memory := writeFirstBlock (writeFirstBlock memory start size) 0xD0000000 0x10000000

/-- `if (following) following->prev = block`. -/
def linkPrev (memory : Memory) (following block : Nat) : Memory :=
  if following ≠ 0 then setPrev memory following block else memory

/-- Cut `current` after `size` bytes; the rest becomes a free block behind it. -/
def splitBlock (memory : Memory) (size current : Nat) : Memory :=
  let newBlock := u32 (current + size)
  let memory := setSize memory newBlock (sub32 (blockSize memory current) size)
  let memory := setFree memory newBlock 1
  let memory := setNext memory newBlock (next memory current)
  let memory := setPrev memory newBlock current
  let memory := linkPrev memory (next memory current) newBlock
  let memory := setSize memory current size
  setNext memory current newBlock

/-- The body of `kmalloc` once a block has been found. -/
def takeBlock (heap : KernelHeap) (size current : Nat) : KernelHeap :=
  let memory :=
    if blockSize heap.memory current ≥ u32 (u32 (size + headerSize) + 8) then
      splitBlock heap.memory size current
    else heap.memory
  let memory := setFree memory current 0
  { heap with memory, used := u32 (heap.used + blockSize memory current) }

/-- The search loop of `kmalloc`.  `none` is a walk that has not ended. -/
def kmallocFrom : Nat → KernelHeap → Nat → Nat → Option (KernelHeap × Nat)
  | 0, _, _, _ => none
  | steps + 1, heap, size, current =>
      if current = 0 then some (heap, 0)
      else if isFree heap.memory current ∧ blockSize heap.memory current ≥ size then
        some (takeBlock heap size current, u32 (current + headerSize))
      else kmallocFrom steps heap size (next heap.memory current)

/-- `size = (size + 7) & ~7; size += sizeof(block_header_t)`. -/
def requestSize (size : Nat) : Nat := u32 ((u32 (size + 7) &&& 0xFFFFFFF8) + headerSize)

/-- `kmalloc`; the second component is the returned pointer, zero for `NULL`.
The search reads without writing, so a walk of more blocks than there are
addresses has met one twice and never ends: that is the result `none`. -/
def kmalloc (heap : KernelHeap) (size : Nat) : Option (KernelHeap × Nat) :=
  kmallocFrom 4294967296 heap (requestSize size) heap.start

/-- The forward merge of `kfree`: absorb the next block when it is free. -/
def mergeNext (memory : Memory) (block : Nat) : Memory :=
  if next memory block ≠ 0 ∧ isFree memory (next memory block) then
    let memory := setSize memory block
      (u32 (blockSize memory block + blockSize memory (next memory block)))
    let memory := setNext memory block (next memory (next memory block))
    linkPrev memory (next memory block) block
  else memory

/-- The backward merge of `kfree`: be absorbed by the previous block when that
one is free. -/
def mergePrev (memory : Memory) (block : Nat) : Memory :=
  if prev memory block ≠ 0 ∧ isFree memory (prev memory block) then
    let memory := setSize memory (prev memory block)
      (u32 (blockSize memory (prev memory block) + blockSize memory block))
    let memory := setNext memory (prev memory block) (next memory block)
    linkPrev memory (next memory block) (prev memory block)
  else memory

def kfree (heap : KernelHeap) (pointer : Nat) : KernelHeap :=
  if pointer = 0 then heap
  else
    let block := sub32 pointer headerSize
    if isFree heap.memory block then heap
    else
      let memory := setFree heap.memory block 1
      let used := sub32 heap.used (blockSize memory block)
      { heap with memory := mergePrev (mergeNext memory block) block, used }

/-- `memset` of `system.h`. -/
def memset (memory : Memory) (dest : Nat) (value : UInt8) (len : Nat) : Memory :=
  (List.range len).foldl (fun memory index => memory.store8 (u32 (dest + index)) value) memory

/-- `memcpy` of `system.h`. -/
def memcpy (memory : Memory) (dest src len : Nat) : Memory :=
  (List.range len).foldl
    (fun memory index => memory.store8 (u32 (dest + index)) (memory (u32 (src + index)))) memory

/-- `krealloc`; as for `kmalloc`, `none` is a search that never ends. -/
def krealloc (heap : KernelHeap) (pointer size : Nat) : Option (KernelHeap × Nat) :=
  if pointer = 0 then kmalloc heap size
  else if size = 0 then some (kfree heap pointer, 0)
  else
    let block := sub32 pointer headerSize
    let oldSize := sub32 (blockSize heap.memory block) headerSize
    if size ≤ oldSize then some (heap, pointer)
    else
      match kmalloc heap size with
      | none => none
      | some (heap, fresh) =>
          if fresh = 0 then some (heap, 0)
          else
            let memory := memcpy heap.memory fresh pointer oldSize
            some (kfree { heap with memory } pointer, fresh)

def kcalloc (heap : KernelHeap) (num size : Nat) : Option (KernelHeap × Nat) :=
  let total := u32 (num * size)
  match kmalloc heap total with
  | none => none
  | some (heap, pointer) =>
      if pointer = 0 then some (heap, 0)
      else some ({ heap with memory := memset heap.memory pointer 0 total }, pointer)

end Helios.Heap
