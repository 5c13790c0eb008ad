import Helios.Heap.Requests

namespace Helios.Heap

open Helios.Data

/-! What one client of the heap can rely on while others use it. -/

def setMemory (session : Session) (memory : Memory) : Session :=
  ⟨{ session.heap with memory }, session.live⟩

/-- A run of the heap freed and wrote payloads of these pointers alone. -/
structure Moved (session next : Session) (freed written : Nat → Prop) : Prop where
  steps : Relation.ReflTransGen Step session next
  stays : ∀ allocation ∈ session.live, ¬freed allocation.pointer → allocation ∈ next.live
  bytes : ∀ allocation ∈ session.live, ¬freed allocation.pointer → ¬written allocation.pointer →
    ∀ position, allocation.pointer ≤ position →
      position < allocation.pointer + allocation.requested →
      next.heap.memory position = session.heap.memory position

section

variable {session next : Session} {blocks : List Block} {allocation other : Allocation}
variable {memory : Memory} {heap : KernelHeap} {pointer size : Nat}
variable {freed written freedLater writtenLater : Nat → Prop}

theorem Reachable.steps (reached : Reachable session)
    (steps : Relation.ReflTransGen Step session next) : Reachable next := by
  obtain ⟨memory, start, size, earlier⟩ := reached
  exact ⟨memory, start, size, earlier.trans steps⟩

theorem Moved.refl (session : Session) :
    Moved session session (fun _ => False) (fun _ => False) :=
  ⟨.refl, fun _ live _ => live, fun _ _ _ _ _ _ _ => rfl⟩

theorem Moved.mono (moved : Moved session next freed written)
    (more : ∀ pointer, freed pointer → freedLater pointer)
    (also : ∀ pointer, written pointer → writtenLater pointer) :
    Moved session next freedLater writtenLater where
  steps := moved.steps
  stays allocation live unfreed := moved.stays allocation live fun gone => unfreed (more _ gone)
  bytes allocation live unfreed unwritten :=
    moved.bytes allocation live (fun gone => unfreed (more _ gone))
      fun changed => unwritten (also _ changed)

theorem Consistent.requested_inPayload (consistent : Consistent session blocks)
    (live : allocation ∈ session.live) {position : Nat} (lower : allocation.pointer ≤ position)
    (upper : position < allocation.pointer + allocation.requested) :
    InPayload session.heap allocation position := by
  obtain ⟨_, _, _, room⟩ := consistent.payload live
  exact ⟨lower, by omega⟩

theorem eraseP_pointer {live : List Allocation} (distinct : (live.map Allocation.pointer).Nodup)
    (member : allocation ∈ live) :
    live.eraseP (·.pointer = allocation.pointer) = live.erase allocation := by
  induction live with
  | nil => cases member
  | cons first rest ih =>
      rw [List.map_cons, List.nodup_cons] at distinct
      by_cases same : first = allocation
      · rw [same, List.erase_cons_head, List.eraseP_cons_of_pos (by simp)]
      · have inside : allocation ∈ rest := (List.mem_cons.mp member).resolve_left (Ne.symm same)
        have other : first.pointer ≠ allocation.pointer := fun equal =>
          distinct.1 (equal ▸ List.mem_map_of_mem inside)
        rw [List.erase_cons_tail (by simpa using same),
          List.eraseP_cons_of_neg (by simpa using other), ih distinct.2 inside]

/-- A call of `kmalloc` frees and writes nothing. -/
theorem Reachable.moved_kmalloc (reached : Reachable session) (bound : size ≤ 0xFFFFFFE8)
    (result : kmalloc session.heap size = some (heap, pointer)) :
    Moved session ⟨heap, if pointer = 0 then session.live else ⟨pointer, size⟩ :: session.live⟩
        (fun _ => False) (fun _ => False) ∧
      (pointer ≠ 0 → pointer < 4294967296 ∧ ∀ allocation ∈ session.live,
        allocation.pointer ≠ pointer) := by
  obtain ⟨blocks, consistent⟩ := reached.consistent
  obtain ⟨after, served⟩ := consistent.kmalloc_step bound result
  refine ⟨⟨.single (.kmalloc size bound result), fun allocation live _ => ?_,
    fun allocation live _ _ position lower upper => ?_⟩, fun some => ?_⟩
  · split
    · exact live
    · exact List.mem_cons_of_mem _ live
  · exact consistent.kmalloc_frame bound result live
      (consistent.requested_inPayload live lower upper)
  · rw [if_neg some] at served
    obtain ⟨_, inside, _, _⟩ := served.payload List.mem_cons_self
    have bounded := served.heap.bounded
    have distinct := served.distinct
    rw [List.map_cons, List.nodup_cons] at distinct
    refine ⟨by simp only at inside bounded; omega, fun allocation live same => distinct.1 ?_⟩
    exact List.mem_map.mpr ⟨allocation, live, same⟩

/-- A call of `kfree` frees its argument and writes nothing. -/
theorem Reachable.moved_kfree (reached : Reachable session) (live : allocation ∈ session.live) :
    Moved session ⟨kfree session.heap allocation.pointer, session.live.erase allocation⟩
      (· = allocation.pointer) (fun _ => False) := by
  obtain ⟨blocks, consistent⟩ := reached.consistent
  have others : ∀ other ∈ session.live, ¬other.pointer = allocation.pointer →
      other ∈ session.live.erase allocation := by
    intro other otherLive different
    exact (List.mem_erase_of_ne fun same => different (congrArg _ same)).mpr otherLive
  refine ⟨.single (.kfree allocation live), others, fun other otherLive different _ position lower
    upper => ?_⟩
  exact consistent.kfree_frame live (others other otherLive different)
    (consistent.requested_inPayload otherLive lower upper)

/-- Two live payloads have no byte in common. -/
theorem Consistent.apart (consistent : Consistent session blocks) (live : allocation ∈ session.live)
    (otherLive : other ∈ session.live) (different : other.pointer ≠ allocation.pointer)
    {position : Nat} (inside : InPayload session.heap allocation position) :
    ¬InPayload session.heap other position := by
  have symmetric : Std.Symm fun left right => ∀ position,
      ¬(InPayload session.heap left position ∧ InPayload session.heap right position) :=
    ⟨fun _ _ apart position both => apart position both.symm⟩
  have apart := consistent.payload_pairwise.forall otherLive live
    fun same => different (congrArg _ same)
  exact fun also => apart position ⟨also, inside⟩

/-- The client of an allocation writes a byte of its payload. -/
theorem Reachable.moved_write {position : Nat} {byte : UInt8} (reached : Reachable session)
    (live : allocation ∈ session.live) (inside : InPayload session.heap allocation position) :
    Moved session (setMemory session (session.heap.memory.store8 position byte)) (fun _ => False)
      (· = allocation.pointer) := by
  obtain ⟨blocks, consistent⟩ := reached.consistent
  refine ⟨.single (.write allocation live position byte inside), fun _ otherLive _ => otherLive,
    fun other otherLive _ different address lower upper => Memory.store8_other ?_⟩
  rintro rfl
  exact consistent.apart live otherLive different inside
    (consistent.requested_inPayload otherLive lower upper)

/-- The memory with the new bytes up to a distance from a payload's start. -/
def partly (before after : Memory) (pointer count : Nat) : Memory := fun position =>
  if position < pointer + count then after position else before position

theorem partly_succ {before after : Memory} {count : Nat} :
    partly before after pointer (count + 1) =
      (partly before after pointer count).store8 (pointer + count) (after (pointer + count)) := by
  funext position
  simp only [partly, Memory.store8]
  by_cases here : position = pointer + count
  · rw [if_pos here, if_pos (by omega), here]
  · rw [if_neg here]
    by_cases earlier : position < pointer + count
    · rw [if_pos earlier, if_pos (by omega)]
    · rw [if_neg earlier, if_neg (by omega)]

/-- The header of an allocation is in front of what is written. -/
theorem capacity_partly {count : Nat} (positive : 16 ≤ allocation.pointer)
    (confined : Memory.Confined allocation.pointer (allocation.pointer + allocation.requested)
      session.heap.memory memory) :
    capacity { session.heap with memory := partly session.heap.memory memory allocation.pointer count }
      allocation.pointer = capacity session.heap allocation.pointer := by
  refine congrArg (· - headerSize) (Memory.load32_congr fun position lower upper => ?_)
  rw [headerSize] at lower upper
  simp only [partly]
  split
  · exact confined position (.inl (by omega))
  · rfl

theorem setMemory_store8 {position : Nat} {byte : UInt8} (live : allocation ∈ session.live)
    (inside : InPayload { session.heap with memory } allocation position) :
    Step (setMemory session memory) (setMemory session (memory.store8 position byte)) :=
  @Step.write (setMemory session memory) allocation live position byte inside

/-- The client of an allocation writes the bytes that it asked for. -/
theorem Reachable.moved_setMemory (reached : Reachable session) (live : allocation ∈ session.live)
    (confined : Memory.Confined allocation.pointer (allocation.pointer + allocation.requested)
      session.heap.memory memory) :
    Moved session (setMemory session memory) (fun _ => False) (· = allocation.pointer) := by
  obtain ⟨blocks, consistent⟩ := reached.consistent
  obtain ⟨_, _, _, room⟩ := consistent.payload live
  obtain ⟨block, member, backs⟩ := consistent.backed allocation live
  have positive : 16 ≤ allocation.pointer := by
    rw [backs.pointer]
    exact Nat.le_add_left _ _
  have steps : ∀ count ≤ allocation.requested, Relation.ReflTransGen Step session
      (setMemory session (partly session.heap.memory memory allocation.pointer count)) := by
    intro count inside
    induction count with
    | zero =>
        have same : partly session.heap.memory memory allocation.pointer 0 = session.heap.memory := by
          funext position
          simp only [partly]
          split
          · exact confined position (.inl (by omega))
          · rfl
        rw [same]
        exact .refl
    | succ count ih =>
        refine (ih (by omega)).tail ?_
        rw [partly_succ]
        refine setMemory_store8 live ⟨Nat.le_add_right _ _, Nat.add_lt_add_left ?_ _⟩
        rw [capacity_partly positive confined]
        omega
  have whole : partly session.heap.memory memory allocation.pointer allocation.requested = memory := by
    funext position
    simp only [partly]
    split
    · rfl
    · exact (confined position (.inr (by omega))).symm
  refine ⟨whole ▸ steps _ le_rfl, fun _ otherLive _ => otherLive,
    fun other otherLive _ different position lower upper => ?_⟩
  refine confined position ?_
  by_contra within
  exact consistent.apart live otherLive different
    (consistent.requested_inPayload live (by omega) (by omega))
    (consistent.requested_inPayload otherLive lower upper)

end

end Helios.Heap
