import Helios.Heap.Canonical

namespace Helios.Heap

open Helios.Data

/-! A second `kfree` of a pointer reads the header it had when it was freed.

Merging takes that header off the list without clearing it, and later merges
write sizes and links of headers that are still on the list.  So the byte
`is_free` of the stale header keeps its value until the memory is handed out
again. -/

/-- `header` starts a free block, or lies behind the header of one. -/
def InFree (blocks : List Block) (header : Nat) : Prop :=
  ∃ block ∈ blocks, block.free = true ∧ header + 16 ≤ block.address + block.size ∧
    (header = block.address ∨ block.address + 16 ≤ header)

/-- A header that was freed: its flag is set, and it lies in free memory. -/
structure Stale (heap : KernelHeap) (blocks : List Block) (header : Nat) : Prop where
  flag : heap.memory (header + 4) = 1
  inside : InFree blocks header

/-- Steps of a session that hand out no memory. -/
inductive QuietStep : Session → Session → Prop
  | kfree {session : Session} (allocation : Allocation) (live : allocation ∈ session.live) :
      QuietStep session ⟨kfree session.heap allocation.pointer, session.live.erase allocation⟩
  | write {session : Session} (allocation : Allocation) (live : allocation ∈ session.live)
      (position : Nat) (byte : UInt8) (inside : InPayload session.heap allocation position) :
      QuietStep session
        ⟨{ session.heap with memory := session.heap.memory.store8 position byte }, session.live⟩

section

variable {memory : Memory} {start size header position : Nat}
variable {first block second : Block} {blocks pre post : List Block} {heap : KernelHeap}

/-- A free block of the list that is still there keeps its headers. -/
theorem InFree.mono {others : List Block} (inside : InFree blocks header)
    (kept : ∀ block ∈ blocks, block.free = true → block ∈ others) : InFree others header := by
  obtain ⟨block, member, free, bounds⟩ := inside
  exact ⟨block, kept block member free, free, bounds⟩

/-- Merging two neighbours keeps the headers that lie in free memory. -/
theorem InFree.absorb (inside : InFree (pre ++ first :: second :: post) header)
    (valid : Shaped memory start size (pre ++ first :: second :: post))
    (free : first.free = true) :
    InFree (pre ++ { first with size := first.size + second.size } :: post) header := by
  have seam : second.address = first.address + first.size :=
    valid.following_eq (valid.following_ne_zero (by simp))
  have large := (valid.sizes first (by simp)).1
  obtain ⟨block, member, blockFree, upper, lower⟩ := inside
  rcases List.mem_append.mp member with before | behind
  · exact ⟨block, by simp [before], blockFree, upper, lower⟩
  · rcases List.mem_cons.mp behind with rfl | behind
    · exact ⟨{ block with size := block.size + second.size }, by simp, free,
        by simp only; omega, lower⟩
    · rcases List.mem_cons.mp behind with rfl | later
      · exact ⟨{ first with size := first.size + block.size }, by simp, free, by simp only; omega,
          .inr (by simp only; omega)⟩
      · exact ⟨block, by simp [later], blockFree, upper, lower⟩

theorem InFree.absorbNext (inside : InFree (pre ++ block :: post) header)
    (valid : Shaped memory start size (pre ++ block :: post)) (free : block.free = true) :
    InFree (pre ++ Heap.absorbNext block post) header := by
  cases post with
  | nil => exact inside
  | cons second rest =>
      cases flag : second.free with
      | false => simpa only [Heap.absorbNext, flag, Bool.false_eq_true, if_false] using inside
      | true => simpa only [Heap.absorbNext, flag, if_true] using inside.absorb valid free

theorem InFree.joinPrev (inside : InFree (pre ++ block :: post) header)
    (valid : Shaped memory start size (pre ++ block :: post)) :
    InFree (Heap.joinPrev pre (block :: post)) header := by
  rcases List.eq_nil_or_concat' pre with rfl | ⟨front, first, rfl⟩
  · exact inside
  · rw [joinPrev_append_singleton]
    have regroup : front ++ [first] ++ block :: post = front ++ first :: block :: post := by simp
    rw [regroup] at inside valid
    cases flag : first.free with
    | false => simpa only [Heap.joinPrev, flag, Bool.false_eq_true, if_false] using inside
    | true => simpa only [Heap.joinPrev, flag, if_true] using inside.absorb valid flag

/-- What lies in free memory still does after another block is freed. -/
theorem InFree.release (valid : WellFormed heap (pre ++ block :: post))
    (inside : InFree (pre ++ { block with free := true } :: post) header) :
    InFree (Heap.release pre block post) header := by
  have marked := reflag_shaped valid
  have forward := mergeNext_shaped marked
  have absorbed := inside.absorbNext marked rfl
  obtain ⟨head, rest, shape, _⟩ := absorbNext_cons { block with free := true } post
  rw [Heap.release, shape]
  rw [shape] at forward absorbed
  exact absorbed.joinPrev forward

/-- The flag of a header that lies in free memory is no size and no link. -/
theorem InFree.spared (inside : InFree blocks header)
    (valid : Shaped memory start size blocks) : Spared blocks (header + 4) := by
  obtain ⟨block, member, _, upper, lower⟩ := inside
  intro other otherMember
  have large := (valid.sizes other otherMember).1
  by_cases same : block = other
  · subst same
    omega
  · have apart := valid.covers.apart member otherMember same
    omega

/-- An allocated block does not meet a header that lies in free memory. -/
theorem InFree.apart (inside : InFree blocks header)
    (valid : Shaped memory start size blocks) (member : block ∈ blocks)
    (allocated : block.free = false) :
    header + 16 ≤ block.address ∨ block.address + block.size ≤ header := by
  obtain ⟨other, otherMember, free, upper, lower⟩ := inside
  have different : other ≠ block := by
    rintro rfl
    rw [free] at allocated
    cases allocated
  have apart := valid.covers.apart otherMember member different
  omega

/-- The header of a block that has just been freed. -/
theorem kfree_stale (valid : WellFormed heap (pre ++ block :: post))
    (allocated : block.free = false) :
    Stale (kfree heap (block.address + 16)) (release pre block post) block.address where
  flag := by
    have marked := reflag_shaped valid
    have here : InFree (pre ++ { block with free := true } :: post) block.address :=
      ⟨{ block with free := true }, by simp, rfl,
        by simpa using (valid.sizes block (by simp)).1, .inl rfl⟩
    have spared : Spared (pre ++ block :: post) (block.address + 4) := by
      intro header inside
      have markedSpared := here.spared marked
      rcases List.mem_append.mp inside with front | behind
      · exact markedSpared header (by simp [front])
      · rcases List.mem_cons.mp behind with rfl | later
        · omega
        · exact markedSpared header (by simp [later])
    rw [kfree_spared valid allocated spared]
    exact Memory.store8_same
  inside := InFree.release valid
    ⟨{ block with free := true }, by simp, rfl, by simpa using (valid.sizes block (by simp)).1,
      .inl rfl⟩

/-- Freeing another block keeps a stale header. -/
theorem Stale.kfree (stale : Stale heap (pre ++ block :: post) header)
    (valid : WellFormed heap (pre ++ block :: post)) (allocated : block.free = false) :
    Stale (Heap.kfree heap (block.address + 16)) (release pre block post) header where
  flag := by
    have apart := stale.inside.apart valid.toShaped (by simp) allocated
    have large := (valid.sizes block (by simp)).1
    rw [kfree_spared valid allocated (stale.inside.spared valid.toShaped), setFree,
      Memory.store8_other (by omega)]
    exact stale.flag
  inside := by
    refine InFree.release valid (stale.inside.mono fun other member free => ?_)
    rcases List.mem_append.mp member with before | behind
    · simp [before]
    · rcases List.mem_cons.mp behind with rfl | later
      · rw [free] at allocated
        cases allocated
      · simp [later]

/-- Writing into an allocated block keeps a stale header. -/
theorem Stale.write (stale : Stale heap blocks header) (valid : WellFormed heap blocks)
    (member : block ∈ blocks) (allocated : block.free = false)
    (lower : block.address + 16 ≤ position) (upper : position < block.address + block.size)
    (byte : UInt8) :
    Stale { heap with memory := heap.memory.store8 position byte } blocks header where
  flag := by
    have apart := stale.inside.apart valid.toShaped member allocated
    simp only
    rw [Memory.store8_other (by omega)]
    exact stale.flag
  inside := stale.inside

/-- `kfree` of a stale header returns without an effect. -/
theorem Stale.kfree_eq (stale : Stale heap blocks header) (valid : WellFormed heap blocks) :
    Heap.kfree heap (header + 16) = heap := by
  obtain ⟨block, member, _, upper, _⟩ := stale.inside
  have bounds := valid.blockBounds member
  have limit := valid.bounded
  have pointer : sub32 (header + 16) headerSize = header := by
    unfold headerSize
    rw [sub32_of_le (by omega) (by omega)]
    omega
  have free : isFree heap.memory header = true := by
    unfold isFree
    rw [stale.flag]
    rfl
  simp [Heap.kfree, pointer, free]

end

section

variable {session later : Session} {blocks : List Block} {header : Nat} {allocation : Allocation}

/-- Steps that hand out no memory keep a stale header. -/
theorem QuietStep.stale (step : QuietStep session later) (consistent : Consistent session blocks)
    (stale : Stale session.heap blocks header) :
    ∃ after, Consistent later after ∧ Stale later.heap after header := by
  cases step with
  | kfree allocation live =>
      obtain ⟨block, member, backs⟩ := consistent.backed allocation live
      obtain ⟨pre, post, rfl⟩ := List.append_of_mem member
      refine ⟨_, consistent.kfree_release live backs, ?_⟩
      rw [backs.pointer]
      exact stale.kfree consistent.heap backs.allocated
  | write allocation live position byte inside =>
      obtain ⟨block, member, backs⟩ := consistent.backed allocation live
      obtain ⟨lower, upper⟩ := (consistent.heap.inPayload_iff member backs).mp inside
      exact ⟨blocks, consistent.write_step live byte inside,
        stale.write consistent.heap member backs.allocated lower upper byte⟩

/-- After a live pointer has been freed, a second `kfree` of it has no effect as
long as no memory was handed out in between. -/
theorem double_free_harmless (reached : Reachable session) (live : allocation ∈ session.live)
    (run : Relation.ReflTransGen QuietStep
      ⟨kfree session.heap allocation.pointer, session.live.erase allocation⟩ later) :
    kfree later.heap allocation.pointer = later.heap := by
  obtain ⟨blocks, consistent⟩ := reached.consistent
  obtain ⟨block, member, backs⟩ := consistent.backed allocation live
  obtain ⟨pre, post, rfl⟩ := List.append_of_mem member
  have kept : ∃ after, Consistent later after ∧ Stale later.heap after block.address := by
    induction run with
    | refl =>
        refine ⟨_, consistent.kfree_release live backs, ?_⟩
        rw [backs.pointer]
        exact kfree_stale consistent.heap backs.allocated
    | tail _ step ih =>
        obtain ⟨after, reachedThere, stale⟩ := ih
        exact step.stale reachedThere stale
  obtain ⟨after, reachedLater, stale⟩ := kept
  rw [backs.pointer]
  exact stale.kfree_eq reachedLater.heap

/-- The second block is absorbed by the first before it is freed again. -/
theorem double_free_harmless_merged :
    ∃ heap, Reachable ⟨heap, [⟨0xD0000088, 100⟩, ⟨0xD0000010, 100⟩]⟩ ∧
      kfree (kfree (kfree heap 0xD0000088) 0xD0000010) 0xD0000088 =
        kfree (kfree heap 0xD0000088) 0xD0000010 := by
  obtain ⟨heap, reached⟩ := reachable_two_hundreds
  have step := @QuietStep.kfree ⟨kfree heap 0xD0000088, [⟨0xD0000010, 100⟩]⟩ ⟨0xD0000010, 100⟩
    (by simp)
  have live : (⟨0xD0000088, 100⟩ : Allocation) ∈ [Allocation.mk 0xD0000088 100, ⟨0xD0000010, 100⟩] := by
    simp
  exact ⟨heap, reached, double_free_harmless reached live (.single step)⟩

end

end Helios.Heap
