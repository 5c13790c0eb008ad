import Helios.Exec.Model
import Helios.Paging.Agreement

namespace Helios.Exec

open Helios.Data Helios.Pmm Helios.Paging

/-! The copy into a page that was mapped just before. -/

section

variable {paging after : PageManager} {flat : FlatMap} {mapping : Mapping} {known : Nat → Prop}
variable {memory : Memory} {dest src len offset : Nat}

theorem translate_eq (represents : Represents paging flat) (vaddr : Nat) :
    translate paging vaddr =
      (flat (pageNumber vaddr)).map fun mapping => mapping.frame * 4096 + vaddr % 4096 := by
  rw [Paging.translate, represents.walk_eq]

theorem memcpy_succ : memcpy paging dest src (len + 1) =
    (memcpy paging dest src len).bind fun middle =>
      copyByte middle (u32 (dest + len)) (u32 (src + len)) := by
  simp only [memcpy, List.range_succ, List.foldlM_append, List.foldlM_cons, List.foldlM_nil]
  congr
  funext middle
  exact bind_pure _

theorem copyByte_eq_some : copyByte paging dest src = some after ↔
    ∃ source target, translate paging src = some source ∧ translate paging dest = some target ∧
      after = { paging with memory := paging.memory.store8 target (paging.memory source) } := by
  simp only [copyByte, Option.bind_eq_some_iff, Option.map_eq_some_iff]
  constructor
  · intro copied
    obtain ⟨source, readable, target, writable, same⟩ := copied
    exact ⟨source, target, readable, writable, same.symm⟩
  · intro copied
    obtain ⟨source, target, readable, writable, same⟩ := copied
    exact ⟨source, readable, target, writable, same.symm⟩

/-- A copy of at least one byte starts at a mapped page. -/
theorem memcpy_mapped (some_byte : 0 < len) (copied : memcpy paging dest src len = some after) :
    ∃ target, translate paging (u32 dest) = some target := by
  induction len generalizing after with
  | zero => omega
  | succ len ih =>
      rw [memcpy_succ] at copied
      obtain ⟨middle, earlier, last⟩ := Option.bind_eq_some_iff.mp copied
      by_cases first : len = 0
      · subst first
        cases earlier
        obtain ⟨_, target, _, writable, _⟩ := copyByte_eq_some.mp last
        exact ⟨target, writable⟩
      · exact ih (by omega) earlier

/-- A page that is mapped apart from the tables, as the target of a copy. -/
structure Target (paging : PageManager) (flat : FlatMap) (dest : Nat) (mapping : Mapping) : Prop where
  represents : Represents paging flat
  mapped : flat (pageNumber dest) = some mapping
  aligned : dest % 4096 = 0
  small : dest < 4294967296
  apart : ∀ offset < 4096, ¬ InTable (directory paging) (mapping.frame * 4096 + offset)

theorem Target.translate_eq (target : Target paging flat dest mapping) (inside : offset < 4096) :
    translate paging (u32 (dest + offset)) = some (mapping.frame * 4096 + offset) := by
  have aligned := target.aligned
  have small := target.small
  have address : u32 (dest + offset) = dest + offset := u32_of_lt (by omega)
  have page : pageNumber (dest + offset) = pageNumber dest := by
    rw [pageNumber, pageNumber, u32_of_lt (by omega), u32_of_lt small]
    omega
  have position : (dest + offset) % 4096 = offset := by omega
  rw [Exec.translate_eq target.represents, address, page, target.mapped, Option.map_some, position]

theorem Target.outside (target : Target paging flat dest mapping)
    (confined : Memory.Confined (mapping.frame * 4096) (mapping.frame * 4096 + 4096) paging.memory
      memory) : Target { paging with memory } flat dest mapping := by
  refine ⟨target.represents.outside fun address inTable => ?_, target.mapped, target.aligned,
    target.small, target.apart⟩
  apply confined address
  by_contra within
  rw [not_or, Nat.not_lt, Nat.not_le] at within
  have apart := target.apart (address - mapping.frame * 4096) (by omega)
  rw [Nat.add_sub_cancel' within.1] at apart
  exact apart inTable

theorem Target.memcpy (target : Target paging flat dest mapping) (short : len ≤ 4096)
    (copied : memcpy paging dest src len = some after) :
    ∃ memory, after = { paging with memory } ∧ Target { paging with memory } flat dest mapping ∧
      Memory.Confined (mapping.frame * 4096) (mapping.frame * 4096 + len) paging.memory memory := by
  induction len generalizing after with
  | zero =>
      cases copied
      exact ⟨paging.memory, rfl, target, Memory.Confined.refl⟩
  | succ len ih =>
      rw [memcpy_succ] at copied
      obtain ⟨middle, earlier, last⟩ := Option.bind_eq_some_iff.mp copied
      obtain ⟨memory, same, kept, confined⟩ := ih (by omega) earlier
      subst same
      obtain ⟨source, address, _, writable, written⟩ := copyByte_eq_some.mp last
      rw [kept.translate_eq (by omega), Option.some.injEq] at writable
      subst writable
      have stored : Memory.Confined (mapping.frame * 4096) (mapping.frame * 4096 + (len + 1))
          paging.memory (memory.store8 (mapping.frame * 4096 + len) (memory source)) :=
        (confined.mono (Nat.le_refl _) (by omega)).store8 (by omega) (by omega)
      exact ⟨_, written, target.outside (stored.mono (Nat.le_refl _) (by omega)), stored⟩

/-- A copy from readable bytes outside of its target arrives. -/
theorem Target.memcpy_copies {source : Nat → Nat} (target : Target paging flat dest mapping)
    (short : len ≤ 4096)
    (readable : ∀ offset < len, translate paging (u32 (src + offset)) = some (source offset))
    (outside : ∀ offset < len, source offset / 4096 ≠ mapping.frame) :
    ∃ memory, Exec.memcpy paging dest src len = some { paging with memory } ∧
      Target { paging with memory } flat dest mapping ∧
      Memory.Confined (mapping.frame * 4096) (mapping.frame * 4096 + len) paging.memory memory ∧
      ∀ offset < len, memory (mapping.frame * 4096 + offset) = paging.memory (source offset) := by
  induction len with
  | zero => exact ⟨paging.memory, rfl, target, Memory.Confined.refl, fun offset none => by omega⟩
  | succ len ih =>
      obtain ⟨memory, earlier, kept, confined, copied⟩ := ih (by omega)
        (fun offset less => readable offset (by omega)) (fun offset less => outside offset (by omega))
      have lastReadable := readable len (Nat.lt_succ_self len)
      rw [Exec.translate_eq target.represents, ← Exec.translate_eq kept.represents] at lastReadable
      have apart := outside len (Nat.lt_succ_self len)
      have byte : memory (source len) = paging.memory (source len) := confined _ (by omega)
      have stored : Memory.Confined (mapping.frame * 4096) (mapping.frame * 4096 + (len + 1))
          paging.memory (memory.store8 (mapping.frame * 4096 + len) (memory (source len))) :=
        (confined.mono (Nat.le_refl _) (by omega)).store8 (by omega) (by omega)
      refine ⟨_, ?_, target.outside (stored.mono (Nat.le_refl _) (by omega)), stored, ?_⟩
      · rw [memcpy_succ, earlier, Option.bind_some, copyByte_eq_some]
        exact ⟨_, _, lastReadable, kept.translate_eq (by omega), rfl⟩
      · intro offset less
        by_cases last : offset = len
        · rw [last, Memory.store8_same, byte]
        · rw [Memory.store8_other (by omega)]
          exact copied offset (by omega)

theorem Target.memcpy_agrees (target : Target paging flat dest mapping) (short : len ≤ 4096)
    (agrees : Agrees known paging memory)
    (sources : ∀ offset < len, ∀ source, translate paging (u32 (src + offset)) = some source →
      known source)
    (copied : Exec.memcpy paging dest src len = some after) :
    ∃ stored, Exec.memcpy { paging with memory } dest src len =
        some { after with memory := stored } ∧
      Agrees (fun address => known address ∨
        mapping.frame * 4096 ≤ address ∧ address < mapping.frame * 4096 + len) after stored := by
  induction len generalizing after with
  | zero =>
      cases copied
      refine ⟨memory, rfl, agrees.mono fun address within => .inl ?_⟩
      cases within with
      | inl here => exact here
      | inr empty => omega
  | succ len ih =>
      rw [memcpy_succ] at copied
      obtain ⟨middle, earlier, last⟩ := Option.bind_eq_some_iff.mp copied
      obtain ⟨filled, same, kept, _⟩ := target.memcpy (by omega) earlier
      obtain ⟨stored, twin, agree⟩ := ih (by omega) (fun offset less => sources offset (by omega)) earlier
      subst same
      obtain ⟨source, address, readable, writable, written⟩ := copyByte_eq_some.mp last
      rw [kept.translate_eq (by omega), Option.some.injEq] at writable
      subst writable
      rw [Exec.translate_eq kept.represents, ← Exec.translate_eq target.represents] at readable
      have byte : stored source = filled source :=
        agree source (.inl (.inl (sources len (by omega) source readable)))
      have other : Target { paging with memory := stored } flat dest mapping :=
        ⟨agree.represents kept.represents, kept.mapped, kept.aligned, kept.small, kept.apart⟩
      rw [Exec.translate_eq target.represents, ← Exec.translate_eq other.represents] at readable
      refine ⟨stored.store8 (mapping.frame * 4096 + len) (filled source), ?_, ?_⟩
      · rw [memcpy_succ, twin, Option.bind_some, copyByte_eq_some]
        refine ⟨source, _, readable, other.translate_eq (by omega), ?_⟩
        simp only [written, byte]
      · rw [written]
        intro address within
        apply Memory.store8_congr
        intro different
        apply agree address
        cases within with
        | inl here =>
            cases here with
            | inl known => exact .inl (.inl known)
            | inr inside => exact .inl (.inr (by omega))
        | inr inTable => exact .inr inTable

end

end Helios.Exec
