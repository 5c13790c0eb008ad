import Helios.Heap.Session

namespace Helios.Heap

open Helios.Data

/-! Requests of any 32-bit size: from `0xFFFFFFE9` on, rounding and adding the
header wrap around, and `kmalloc` searches for at most sixteen bytes. -/

def NoneFree (heap : KernelHeap) : Prop :=
  ∀ block, OnBlockList heap block → isFree heap.memory block = false

/-- The size does not wrap, or there is no block that it could be served from. -/
def Servable (heap : KernelHeap) (size : Nat) : Prop := size ≤ 0xFFFFFFE8 ∨ NoneFree heap

/-- If `kmalloc` returns a block, its payload lies in the heap and holds the
request, the blocks still tile the heap with `NULL` at both ends of the list,
and the next search ends. -/
def Honoured (heap : KernelHeap) (size : Nat) : Prop :=
  ∀ after pointer, kmalloc heap size = some (after, pointer) → pointer ≠ 0 →
    size ≤ capacity after pointer ∧
      after.start ≤ pointer ∧ pointer + size ≤ after.start + after.size ∧
      (∃ blocks, Covers after.start blocks (after.start + after.size) ∧
        BlockList after.memory blocks) ∧
      ∀ request, (kmalloc after request).isSome

/-- The steps of a session, and requests of any size that can be served. -/
inductive ServableStep : Session → Session → Prop
  | step {session next : Session} (step : Step session next) : ServableStep session next
  | kmalloc {session : Session} {heap : KernelHeap} {pointer : Nat} (size : Nat)
      (small : size < 4294967296) (servable : Servable session.heap size)
      (result : kmalloc session.heap size = some (heap, pointer)) :
      ServableStep session
        ⟨heap, if pointer = 0 then session.live else ⟨pointer, size⟩ :: session.live⟩

section

variable {session next : Session} {heap : KernelHeap} {blocks : List Block} {size : Nat}

theorem requestSize_wraps (large : 0xFFFFFFE8 < size) (small : size < 4294967296) :
    requestSize size ≤ 16 := by
  unfold requestSize headerSize
  by_cases rounds : size + 7 < 4294967296
  · have rounded : (size + 7) &&& 0xFFFFFFF8 = (size + 7) / 8 * 8 :=
      and_highMask (show size + 7 < 2 ^ (29 + 3) by omega)
    rw [u32_of_lt rounds, rounded, u32]
    omega
  · have rest : u32 (size + 7) < 8 := by
      unfold u32
      omega
    have rounded : u32 (size + 7) &&& 0xFFFFFFF8 = u32 (size + 7) / 8 * 8 :=
      and_highMask (show u32 (size + 7) < 2 ^ (29 + 3) by omega)
    rw [rounded, u32]
    omega

theorem WellFormed.noneFree_iff (valid : WellFormed heap blocks) :
    NoneFree heap ↔ ∀ block ∈ blocks, block.free = false := by
  constructor
  · intro none block member
    obtain ⟨pre, post, rfl⟩ := List.append_of_mem member
    rw [← valid.header.isFree_eq]
    exact none block.address (valid.onBlockList_iff.mpr ⟨block, member, rfl⟩)
  · intro none address listed
    obtain ⟨block, member, rfl⟩ := valid.onBlockList_iff.mp listed
    obtain ⟨pre, post, rfl⟩ := List.append_of_mem member
    rw [valid.header.isFree_eq]
    exact none block member

theorem WellFormed.kmalloc_isSome (valid : WellFormed heap blocks) (size : Nat) :
    (kmalloc heap size).isSome := by
  cases kmalloc_eq size valid with
  | inl failed => simp [failed.1]
  | inr served =>
      obtain ⟨_, _, _, _, _, _, result⟩ := served
      simp [result]

theorem WellFormed.kmalloc_noneFree (valid : WellFormed heap blocks) (none : NoneFree heap)
    (size : Nat) : kmalloc heap size = some (heap, 0) := by
  cases kmalloc_eq size valid with
  | inl failed => exact failed.1
  | inr served =>
      obtain ⟨pre, block, post, rfl, fits, _⟩ := served
      have allocated := valid.noneFree_iff.mp none block (by simp)
      rw [fits.1] at allocated
      cases allocated

/-- A request that can be served is an ordinary one, or changes nothing. -/
theorem Reachable.servable (reached : Reachable session) (step : ServableStep session next) :
    Reachable next := by
  have extended : ∀ {after}, Step session after → Reachable after := by
    intro after taken
    obtain ⟨memory, start, size, run⟩ := reached
    exact ⟨memory, start, size, run.tail taken⟩
  cases step with
  | step taken => exact extended taken
  | kmalloc size small servable result =>
      cases servable with
      | inl bound => exact extended (.kmalloc size bound result)
      | inr none =>
          obtain ⟨blocks, consistent⟩ := reached.consistent
          rw [consistent.heap.kmalloc_noneFree none size] at result
          obtain ⟨rfl, rfl⟩ := Prod.mk.inj (Option.some.inj result)
          exact reached

theorem Consistent.honoured (consistent : Consistent session blocks) (bound : size ≤ 0xFFFFFFE8) :
    Honoured session.heap size := by
  intro after pointer result found
  obtain ⟨others, served⟩ := consistent.kmalloc_step bound result
  rw [if_neg found] at served
  obtain ⟨lower, upper, _, room⟩ := served.payload List.mem_cons_self
  exact ⟨room, lower, by simp only at upper room ⊢; omega,
    ⟨others, served.heap.covers, served.heap.linked⟩, fun request => served.heap.kmalloc_isSome request⟩

/-- A size that wraps is served from the first free block, which is too small. -/
theorem Consistent.not_honoured (consistent : Consistent session blocks)
    (large : 0xFFFFFFE8 < size) (small : size < 4294967296) (honoured : Honoured session.heap size) :
    NoneFree session.heap := by
  have request := requestSize_wraps large small
  cases kmalloc_eq size consistent.heap with
  | inl failed =>
      rw [consistent.heap.noneFree_iff]
      intro block member
      cases free : block.free with
      | false => rfl
      | true =>
          have room := (consistent.heap.sizes block member).1
          exact absurd ⟨free, by omega⟩ (failed.2 block member)
  | inr served =>
      obtain ⟨pre, block, post, rfl, fits, _, result⟩ := served
      have bounds := consistent.heap.blockBounds (show block ∈ pre ++ block :: post by simp)
      have limit := consistent.heap.bounded
      obtain ⟨_, _, inside, _⟩ := honoured _ _ result (Nat.succ_ne_zero _)
      rw [takeBlock_start, takeBlock_size] at inside
      omega

end

/-- After any run whose requests can be served, `kmalloc` returns, and honours a
size exactly when that can be served too. -/
theorem request_honoured_iff (memory : Memory) (start length : Nat) (session : Session) (size : Nat)
    (reached : Relation.ReflTransGen ServableStep (Session.initial memory start length) session)
    (small : size < 4294967296) :
    (kmalloc session.heap size).isSome ∧
      (Honoured session.heap size ↔ Servable session.heap size) := by
  have reachable : Reachable session := by
    induction reached with
    | refl => exact ⟨memory, start, length, .refl⟩
    | tail _ step ih => exact ih.servable step
  obtain ⟨blocks, consistent⟩ := reachable.consistent
  refine ⟨consistent.heap.kmalloc_isSome size, fun honoured => ?_, fun servable => ?_⟩
  · by_cases bound : size ≤ 0xFFFFFFE8
    · exact .inl bound
    · exact .inr (consistent.not_honoured (by omega) small honoured)
  · cases servable with
    | inl bound => exact consistent.honoured bound
    | inr none =>
        intro after pointer result found
        rw [consistent.heap.kmalloc_noneFree none size] at result
        obtain ⟨_, rfl⟩ := Prod.mk.inj (Option.some.inj result)
        exact absurd rfl found

theorem request_honoured_iff_initial :
    Honoured (Session.initial (fun _ => 0) 0 0).heap 100 ↔
      Servable (Session.initial (fun _ => 0) 0 0).heap 100 :=
  (request_honoured_iff (fun _ => 0) 0 0 _ 100 .refl (by decide)).2

/-- The first request of `0xFFFFFFF0` bytes links the only block to itself. -/
theorem huge_request_loops :
    ∃ heap, kmalloc (Session.initial (fun _ => 0) 0 0).heap 0xFFFFFFF0 = some (heap, 0xD0000010) ∧
      next heap.memory 0xD0000000 = 0xD0000000 ∧
      ¬ Honoured (Session.initial (fun _ => 0) 0 0).heap 0xFFFFFFF0 := by
  have consistent := initial_consistent (fun _ => 0) 0 0
  cases kmalloc_eq 0xFFFFFFF0 consistent.heap with
  | inl failed => exact absurd ⟨rfl, by decide⟩ (failed.2 _ List.mem_cons_self)
  | inr served =>
      obtain ⟨pre, block, post, shape, _, _, result⟩ := served
      have member : block ∈ [Block.mk 0xD0000000 0x10000000 true] := by
        rw [shape]
        simp
      rw [List.mem_singleton.mp member] at result
      refine ⟨_, result, by decide +kernel, fun honoured => ?_⟩
      have free := consistent.not_honoured (by decide) (by decide) honoured
      have allocated := consistent.heap.noneFree_iff.mp free _ List.mem_cons_self
      cases allocated

end Helios.Heap
