import Helios.Heap.Contents
import Helios.Heap.Requests

namespace Helios.Heap

open Helios.Data

/-! `kcalloc`: the product of its arguments is formed modulo `2 ^ 32`. -/

/-- The product does not wrap, also once rounded, or no block on the list is
free and as large as what is left of it. -/
def ProductServable (heap : KernelHeap) (num size : Nat) : Prop :=
  num * size ≤ 0xFFFFFFE8 ∨ ∀ block, OnBlockList heap block → isFree heap.memory block = true →
    blockSize heap.memory block < requestSize (u32 (num * size))

/-- A block that `kcalloc` returns holds the whole product, inside the heap and
zeroed, and no live payload has changed. -/
def ProductHonoured (session : Session) (num size : Nat) : Prop :=
  ∀ after pointer, kcalloc session.heap num size = some (after, pointer) → pointer ≠ 0 →
    num * size ≤ capacity after pointer ∧
      pointer + num * size ≤ after.start + after.size ∧
      (∀ index < num * size, after.memory (pointer + index) = 0) ∧
      ∀ allocation ∈ session.live, ∀ position, InPayload session.heap allocation position →
        after.memory position = session.heap.memory position

section

variable {session : Session} {blocks pre post : List Block} {block : Block} {num size : Nat}

theorem WellFormed.unfit_iff {heap : KernelHeap} (valid : WellFormed heap blocks) :
    (∀ block, OnBlockList heap block → isFree heap.memory block = true →
        blockSize heap.memory block < size) ↔ ∀ block ∈ blocks, ¬ Fits size block := by
  constructor
  · intro small block member fits
    have listed := valid.onBlockList_iff.mpr ⟨block, member, rfl⟩
    obtain ⟨pre, post, rfl⟩ := List.append_of_mem member
    have header := valid.header
    have less := small block.address listed (header.isFree_eq.trans fits.1)
    rw [header.size] at less
    have enough := fits.2
    omega
  · intro unfit address listed free
    obtain ⟨block, member, rfl⟩ := valid.onBlockList_iff.mp listed
    have none := unfit block member
    obtain ⟨pre, post, rfl⟩ := List.append_of_mem member
    have header := valid.header
    rw [header.isFree_eq] at free
    rw [header.size]
    by_contra large
    exact none ⟨free, by omega⟩

/-- A heap with the first `total` bytes of a payload set to zero. -/
def zeroed (heap : KernelHeap) (pointer total : Nat) : KernelHeap :=
  { heap with memory := memset heap.memory pointer 0 total }

theorem kcalloc_of_kmalloc {heap taken : KernelHeap} {pointer : Nat}
    (result : kmalloc heap (u32 (num * size)) = some (taken, pointer)) (found : pointer ≠ 0) :
    kcalloc heap num size = some (zeroed taken pointer (u32 (num * size)), pointer) := by
  simp only [kcalloc, result, found, if_false, zeroed]

theorem kcalloc_null {heap taken : KernelHeap}
    (result : kmalloc heap (u32 (num * size)) = some (taken, 0)) :
    kcalloc heap num size = some (taken, 0) := by
  simp only [kcalloc, result, if_true]

theorem kcalloc_eq {heap : KernelHeap} (valid : WellFormed heap blocks) (num size : Nat) :
    (kcalloc heap num size = some (heap, 0) ∧
        ∀ block ∈ blocks, ¬ Fits (requestSize (u32 (num * size))) block) ∨
      ∃ pre block post, blocks = pre ++ block :: post ∧
        Fits (requestSize (u32 (num * size))) block ∧
        kcalloc heap num size = some
          (zeroed (takeBlock heap (requestSize (u32 (num * size))) block.address)
            (block.address + 16) (u32 (num * size)), block.address + 16) := by
  refine (kmalloc_eq (u32 (num * size)) valid).imp
    (fun failed => ⟨kcalloc_null failed.1, failed.2⟩) ?_
  rintro ⟨pre, block, post, cut, fits, _, result⟩
  exact ⟨pre, block, post, cut, fits, kcalloc_of_kmalloc result (Nat.succ_ne_zero _)⟩

section

variable {total : Nat} (consistent : Consistent session (pre ++ block :: post))
variable (bound : total ≤ 0xFFFFFFE8) (fits : Fits (requestSize total) block)

include consistent bound fits

theorem Consistent.zeroed_confined :
    Memory.Confined (block.address + 16) (block.address + (taken (requestSize total) block).size)
      (takeBlock session.heap (requestSize total) block.address).memory
      (memset (takeBlock session.heap (requestSize total) block.address).memory
        (block.address + 16) 0 total) := by
  obtain ⟨served, backs⟩ := consistent.kmalloc_take bound fits
  have room := backs.room
  have bounds := served.heap.blockBounds ((mem_take fits.1 rfl _).mpr (.inr rfl))
  have limit := served.heap.bounded
  have place : (taken (requestSize total) block).address = block.address := rfl
  simp only at room
  exact (memset_confined (by omega)).mono (Nat.le_refl _) (by omega)

theorem Consistent.zeroed :
    Consistent ⟨Heap.zeroed (takeBlock session.heap (requestSize total) block.address)
      (block.address + 16) total, ⟨block.address + 16, total⟩ :: session.live⟩
      (pre ++ carve (requestSize total) block ++ post) :=
  (consistent.kmalloc_take bound fits).1.confined ((mem_take fits.1 rfl _).mpr (.inr rfl))
    (consistent.zeroed_confined bound fits)

theorem Consistent.zeroed_other {allocation : Allocation} (live : allocation ∈ session.live)
    {position : Nat} (inside : InPayload session.heap allocation position) :
    (Heap.zeroed (takeBlock session.heap (requestSize total) block.address)
      (block.address + 16) total).memory position = session.heap.memory position := by
  have request := requestSize_eq bound
  obtain ⟨item, stays, backs, member, apart⟩ := consistent.beside fits.1 live
  obtain ⟨lower, upper⟩ := (consistent.heap.inPayload_iff member backs).mp inside
  have shorter := taken_size_le fits
  exact (consistent.zeroed_confined bound fits position (by omega)).trans
    (takeBlock_other consistent.heap fits.1 (by omega) fits.2 stays lower upper)

end

theorem Consistent.product_honoured (consistent : Consistent session blocks)
    (bound : num * size ≤ 0xFFFFFFE8) : ProductHonoured session num size := by
  intro after pointer result found
  have unwrapped : u32 (num * size) = num * size := u32_of_lt (by omega)
  have outcome := kcalloc_eq consistent.heap num size
  rw [unwrapped] at outcome
  cases outcome with
  | inl failed =>
      rw [failed.1] at result
      obtain ⟨_, rfl⟩ := Prod.mk.inj (Option.some.inj result)
      exact absurd rfl found
  | inr served =>
      obtain ⟨pre, block, post, rfl, fits, returned⟩ := served
      rw [returned] at result
      obtain ⟨rfl, rfl⟩ := Prod.mk.inj (Option.some.inj result)
      have zeroing := consistent.zeroed bound fits
      obtain ⟨_, upper, _, enough⟩ := zeroing.payload List.mem_cons_self
      have limit := zeroing.heap.bounded
      simp only at upper enough limit
      refine ⟨enough, by omega, fun index inside => ?_, fun allocation live position inside => ?_⟩
      · exact memset_inside (by omega) inside
      · exact consistent.zeroed_other bound fits live inside

/-- A product that wraps is honoured only when nothing is returned. -/
theorem Consistent.product_wraps (consistent : Consistent session blocks)
    (large : 0xFFFFFFE8 < num * size) (honoured : ProductHonoured session num size) :
    ∀ block ∈ blocks, ¬ Fits (requestSize (u32 (num * size))) block := by
  cases kcalloc_eq consistent.heap num size with
  | inl failed => exact failed.2
  | inr served =>
      obtain ⟨pre, block, post, rfl, fits, returned⟩ := served
      have bounds := consistent.heap.blockBounds (show block ∈ pre ++ block :: post by simp)
      have limit := consistent.heap.bounded
      obtain ⟨_, inside, _⟩ := honoured _ _ returned (Nat.succ_ne_zero _)
      simp only [Heap.zeroed, takeBlock_start, takeBlock_size] at inside
      omega

/-- In every reachable state `kcalloc` returns, and honours the product of its
arguments exactly when that can be served. -/
theorem product_honoured_iff (reached : Reachable session) (num size : Nat) :
    (kcalloc session.heap num size).isSome ∧
      (ProductHonoured session num size ↔ ProductServable session.heap num size) := by
  obtain ⟨blocks, consistent⟩ := reached.consistent
  have valid := consistent.heap
  refine ⟨?_, fun honoured => ?_, fun servable => ?_⟩
  · cases kcalloc_eq valid num size with
    | inl failed => simp [failed.1]
    | inr served =>
        obtain ⟨_, _, _, _, _, result⟩ := served
        simp [result]
  · by_cases bound : num * size ≤ 0xFFFFFFE8
    · exact .inl bound
    · exact .inr (valid.unfit_iff.mpr (consistent.product_wraps (by omega) honoured))
  · cases servable with
    | inl bound => exact consistent.product_honoured bound
    | inr small =>
        intro after pointer result found
        cases kcalloc_eq valid num size with
        | inl failed =>
            rw [failed.1] at result
            obtain ⟨_, rfl⟩ := Prod.mk.inj (Option.some.inj result)
            exact absurd rfl found
        | inr served =>
            obtain ⟨pre, block, post, rfl, fits, _⟩ := served
            exact absurd fits (valid.unfit_iff.mp small block (by simp))

theorem product_honoured_iff_initial :
    ProductHonoured (Session.initial (fun _ => 0) 0 0) 3 100 ↔
      ProductServable (Session.initial (fun _ => 0) 0 0).heap 3 100 :=
  (product_honoured_iff ⟨_, _, _, .refl⟩ 3 100).2

/-- 65536 elements of 65537 bytes are served by a block of 65552 bytes. -/
theorem wrapped_product_served :
    ∃ heap, kcalloc (Session.initial (fun _ => 0) 0 0).heap 0x10000 0x10001 =
        some (heap, 0xD0000010) ∧
      ¬ ProductHonoured (Session.initial (fun _ => 0) 0 0) 0x10000 0x10001 := by
  have consistent := initial_consistent (fun _ => 0) 0 0
  have request : requestSize (u32 (0x10000 * 0x10001)) = 65552 := by decide
  have fits : Fits 65552 ⟨0xD0000000, 0x10000000, true⟩ := ⟨rfl, by decide⟩
  cases kcalloc_eq consistent.heap 0x10000 0x10001 with
  | inl failed =>
      rw [request] at failed
      exact absurd fits (failed.2 _ List.mem_cons_self)
  | inr served =>
      obtain ⟨pre, block, post, shape, _, result⟩ := served
      have member : block ∈ [Block.mk 0xD0000000 0x10000000 true] := by
        rw [shape]
        simp
      rw [List.mem_singleton.mp member] at result
      refine ⟨_, result, fun honoured => ?_⟩
      have unfit := consistent.product_wraps (by decide) honoured
      rw [request] at unfit
      exact unfit _ List.mem_cons_self fits

end

end Helios.Heap
