import Helios.Paging.Runs

namespace Helios.Paging

open Helios.Data Helios.Pmm

/-! The pages behind the kernel heap.

`init_kheap` writes a header to the address it is given, maps the 65536 pages of
the heap one after the other, and writes the header of the heap's first block.
`vmm_map_page` is `map_page` on the current directory. -/

def heapStart : Nat := 0xD0000000

def heapSize : Nat := 0x10000000

def heapPages : Nat := heapSize / 4096

/-- The stores to the four fields of a `block_header_t` at `block`, of a free block
that is alone in its list. -/
def storeHeader (reach : PageManager → Nat → Option Nat) (paging : PageManager)
    (block size : Nat) : Option PageManager := do
  let address ← reach paging block
  let paging := { paging with memory := paging.memory.store32 address size }
  let address ← reach paging (block + 4)
  let paging := { paging with memory := paging.memory.store8 address 1 }
  let address ← reach paging (block + 8)
  let paging := { paging with memory := paging.memory.store32 address 0 }
  let address ← reach paging (block + 12)
  pure { paging with memory := paging.memory.store32 address 0 }

/-- The body of the mapping loop of `init_kheap`. -/
def mapHeapPage (reach : PageManager → Nat → Option Nat) (paging : PageManager) (index : Nat) :
    Option PageManager :=
  match allocFrame paging.pmm with
  | (pmm, phys) =>
      if phys = 0 then some { paging with pmm }
      else mapPageVia reach { paging with pmm } (heapStart + index * 4096) phys (1 ||| 2)

def mapHeap (reach : PageManager → Nat → Option Nat) (paging : PageManager) (count : Nat) :
    Option PageManager :=
  (List.range count).foldlM (mapHeapPage reach) paging

/-- `init_kheap`; `none` is a page fault. -/
def initKheap (reach : PageManager → Nat → Option Nat) (paging : PageManager)
    (start size : Nat) : Option PageManager := do
  let paging ← storeHeader reach paging start size
  let paging ← mapHeap reach paging heapPages
  storeHeader reach paging heapStart heapSize

/-- `init_paging` sets the paging bit once it has its table. -/
def bootReach (pmm : PmmManager) (paging : PageManager) (vaddr : Nat) : Option Nat :=
  if (allocFrame pmm).2 ≠ 0 then translate paging vaddr else some vaddr

/-- `init_pmm`, `init_paging` and `init_kheap` in the order, and with the arguments,
of `kernel_main`. -/
def bootHeap (contents : Bitmap) (totalMemoryKb : Nat) (memory : Memory)
    (directories : Nat → Directory) (kernelPageDir : Nat) : Option PageManager :=
  initKheap (bootReach (initPmm contents totalMemoryKb))
    (boot contents totalMemoryKb memory directories kernelPageDir) 0xE0000000 0x10000000

/-- Every page of the heap is present, with a frame of its own. -/
def HeapBacked (paging : PageManager) : Prop :=
  ∀ index < heapPages, ∃ mapping, walk paging (heapStart + index * 4096) = some mapping ∧
    (∀ vaddr other, walk paging vaddr = some other → other.frame = mapping.frame →
      pageNumber vaddr = pageNumber (heapStart + index * 4096)) ∧
    ∀ slot, (directory paging).tables slot ≠ 0 →
      (directory paging).tables slot ≠ mapping.frame * 4096

section

variable {reach : PageManager → Nat → Option Nat} {paging after : PageManager}
variable {block size start count index : Nat}

/-- A header at an address that is not mapped. -/
theorem storeHeader_fault (unmapped : reach paging block = none) :
    storeHeader reach paging block size = none := by
  rw [storeHeader, unmapped]
  rfl

/-- The stores of a header leave everything but memory alone. -/
theorem storeHeader_outside (stored : storeHeader reach paging block size = some after) :
    after.pmm = paging.pmm ∧ directory after = directory paging := by
  simp only [storeHeader, bind, Option.bind_eq_some_iff, pure, Option.some.injEq] at stored
  obtain ⟨_, _, _, _, _, _, _, _, same⟩ := stored
  subst same
  exact ⟨rfl, rfl⟩

/-- Without a frame the loop does nothing. -/
theorem mapHeap_exhausted (exhausted : allocFrame paging.pmm = (paging.pmm, 0)) :
    mapHeap reach paging count = some paging := by
  induction count with
  | zero => rfl
  | succ count ih =>
      have last : mapHeapPage reach paging count = some paging := by
        rw [mapHeapPage, exhausted]
        rfl
      rw [mapHeap] at ih ⊢
      rw [List.range_succ, List.foldlM_append, ih]
      simp only [bind, Option.bind_some, List.foldlM_cons, List.foldlM_nil, last]
      rfl

/-- A machine without a frame for the identity table maps no page of the heap. -/
theorem initKheap_exhausted (exhausted : allocFrame paging.pmm = (paging.pmm, 0))
    (finished : initKheap reach paging start size = some after) :
    directory after = directory paging := by
  simp only [initKheap, bind, Option.bind_eq_some_iff] at finished
  obtain ⟨first, stored, middle, mapped, last⟩ := finished
  obtain ⟨pmm, dir⟩ := storeHeader_outside stored
  rw [← pmm] at exhausted
  rw [mapHeap_exhausted exhausted, Option.some.injEq] at mapped
  rw [(storeHeader_outside last).2, ← mapped, dir]

variable {contents : Bitmap} {totalMemoryKb kernelPageDir : Nat} {memory : Memory}
variable {directories : Nat → Directory}

/-- With paging on, only the low four megabytes are mapped when `init_kheap` stores
its first header. -/
theorem bootHeap_fault (available : (allocFrame (initPmm contents totalMemoryKb)).2 ≠ 0) :
    bootHeap contents totalMemoryKb memory directories kernelPageDir = none := by
  have represents := @boot_represents contents totalMemoryKb kernelPageDir memory directories
    available
  have unmapped : bootReach (initPmm contents totalMemoryKb)
      (boot contents totalMemoryKb memory directories kernelPageDir) 0xE0000000 = none := by
    rw [bootReach, if_pos available, translate, represents.walk_eq]
    rfl
  rw [bootHeap, initKheap, storeHeader_fault unmapped]
  rfl

/-- Without a frame `init_paging` leaves an empty directory. -/
theorem initPaging_exhausted {pmm : PmmManager} (exhausted : allocFrame pmm = (pmm, 0)) :
    initPaging (bootPaging pmm memory directories kernelPageDir) =
      { pmm, memory
        directories := Function.update directories kernelPageDir ⟨fun _ => 0, fun _ => 0⟩
        kernelPageDir
        currentPageDir := kernelPageDir } := by
  simp only [initPaging, bootPaging, Direct.createPageTable, setDirectory, exhausted, if_true]

theorem boot_exhausted (exhausted : ¬ (allocFrame (initPmm contents totalMemoryKb)).2 ≠ 0) :
    allocFrame (boot contents totalMemoryKb memory directories kernelPageDir).pmm =
        ((boot contents totalMemoryKb memory directories kernelPageDir).pmm, 0) ∧
      directory (boot contents totalMemoryKb memory directories kernelPageDir) =
        ⟨fun _ => 0, fun _ => 0⟩ := by
  have nothing : allocFrame (initPmm contents totalMemoryKb) =
      (initPmm contents totalMemoryKb, 0) := by
    cases allocFrame_fresh initPmm_totalPages_le initPmm_nullUsed with
    | inl failed => exact failed
    | inr taken =>
        obtain ⟨page, _, _, _, result, notNull⟩ := taken
        rw [result] at exhausted
        exact absurd notNull exhausted
  rw [boot, initPaging_exhausted nothing]
  refine ⟨nothing, ?_⟩
  simp only [directory, activeDir, ite_self, Function.update_self]

/-- The boot sequence backs the heap for no memory size: where there is a frame,
paging is on and the first store of `init_kheap` faults; where there is none, the
heap gets none either. -/
theorem kernel_heap_never_backed (contents : Bitmap) (totalMemoryKb : Nat) (memory : Memory)
    (directories : Nat → Directory) (kernelPageDir : Nat) :
    ¬ ∃ after, bootHeap contents totalMemoryKb memory directories kernelPageDir = some after ∧
      HeapBacked after := by
  rintro ⟨after, finished, backed⟩
  by_cases available : (allocFrame (initPmm contents totalMemoryKb)).2 ≠ 0
  · rw [bootHeap_fault available] at finished
    cases finished
  · obtain ⟨exhausted, empty⟩ := @boot_exhausted contents totalMemoryKb kernelPageDir memory
      directories available
    have same := initKheap_exhausted exhausted finished
    obtain ⟨mapping, walked, _⟩ := backed 0 (by unfold heapPages heapSize; omega)
    simp [walk, same, empty, present, field_zero] at walked

/-- With 512 megabytes the first store of `init_kheap` faults. -/
theorem kernel_heap_faults :
    bootHeap (fun _ => 0) 524288 (fun _ => 0) (fun _ => ⟨fun _ => 0, fun _ => 0⟩) 4096 = none := by
  have total : (initPmm (fun _ => 0) 524288).totalPages = 131072 := by
    rw [initPmm_totalPages]
    rfl
  exact bootHeap_fault (boot_available (by rw [total]; decide))

end

end Helios.Paging
