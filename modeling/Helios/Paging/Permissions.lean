import Helios.Paging.Runs

namespace Helios.Paging

open Helios.Data Helios.Pmm

/-! The permissions that the processor grants: the conjunction of both levels.

`map_page` writes the bits of the table entry with every mapping, those of the
directory entry only when it creates the table. -/

structure Permissions where
  user : Nat
  rw : Nat
deriving Repr, DecidableEq

/-- The permissions of a mapped page, from the directory entry and the table entry. -/
def effective (paging : PageManager) (vaddr : Nat) : Option Permissions :=
  let entry := (directory paging).entries (pdIndex vaddr)
  (walk paging vaddr).map fun mapping => ⟨user entry &&& mapping.user, rw entry &&& mapping.rw⟩

/-- The page is open to the user, and for writing, exactly as the flags say. -/
def Grants (paging : PageManager) (vaddr flags : Nat) : Prop :=
  ∃ permissions, effective paging vaddr = some permissions ∧
    (permissions.user = 1 ↔ flags &&& pageUser ≠ 0) ∧ (permissions.rw = 1 ↔ flags &&& pageRw ≠ 0)

/-- `map_page` grants what its flags say, and changes no other page. -/
def GrantsOnly (paging : PageManager) (vaddr paddr flags : Nat) : Prop :=
  ∃ next, mapPage paging vaddr paddr flags = some next ∧ Grants next vaddr flags ∧
    ∀ other, pageNumber other ≠ pageNumber vaddr → effective next other = effective paging other

/-- The directory slot has no table yet, or its entry has every permission of
the flags. -/
def DirectoryPermits (paging : PageManager) (vaddr flags : Nat) : Prop :=
  (directory paging).tables (pdIndex vaddr) = 0 ∨
    (flags &&& pageUser ≠ 0 → user ((directory paging).entries (pdIndex vaddr)) = 1) ∧
      (flags &&& pageRw ≠ 0 → rw ((directory paging).entries (pdIndex vaddr)) = 1)

section

variable {paging : PageManager} {flat : FlatMap} {vaddr paddr flags flag other : Nat}

theorem flagBit_lt : flagBit flags flag < 2 := by
  unfold flagBit
  split <;> decide

theorem flagBit_eq_one : flagBit flags flag = 1 ↔ flags &&& flag ≠ 0 := by
  unfold flagBit
  by_cases set : flags &&& flag ≠ 0
  · simp [set]
  · rw [if_neg set]
    simpa using set

/-- The directory entry of the page after `map_page`, and that the other ones
keep theirs. -/
theorem Represents.mapPage_entries (represents : Represents paging flat) (paddr flags : Nat)
    (supplied : (directory paging).tables (pdIndex vaddr) ≠ 0 ∨ (allocFrame paging.pmm).2 ≠ 0) :
    ((directory paging).tables (pdIndex vaddr) ≠ 0 ∧
        (directory (Direct.mapPage paging vaddr paddr flags)).entries = (directory paging).entries) ∨
      ((directory paging).tables (pdIndex vaddr) = 0 ∧ ∃ target,
        (directory (Direct.mapPage paging vaddr paddr flags)).entries =
          Function.update (directory paging).entries (pdIndex vaddr)
            (fillEntry ((directory paging).entries (pdIndex vaddr)) flags target)) := by
  by_cases empty : (directory paging).tables (pdIndex vaddr) = 0
  · refine .inr ⟨empty, ?_⟩
    cases allocFrame_fresh represents.bounded represents.nullUsed with
    | inl failed =>
        rw [failed] at supplied
        simp [empty] at supplied
    | inr taken =>
        obtain ⟨page, _, _, _, result, notNull⟩ := taken
        refine ⟨(page * 4096) >>> 12, ?_⟩
        rw [Direct.mapPage, ensureTable_created empty result notNull]
        simp only [notNull, if_false]
        exact congrArg Directory.entries directory_setDirectory
  · refine .inl ⟨empty, ?_⟩
    rw [Direct.mapPage, ensureTable_existing empty]
    simp only [empty, if_false]
    rfl

theorem Represents.effective_other (represents : Represents paging flat)
    (supplied : (directory paging).tables (pdIndex vaddr) ≠ 0 ∨ (allocFrame paging.pmm).2 ≠ 0)
    (different : pageNumber other ≠ pageNumber vaddr) :
    effective (Direct.mapPage paging vaddr paddr flags) other = effective paging other := by
  have mapped := represents.mapPage_supplied vaddr paddr flags supplied
  have same : walk (Direct.mapPage paging vaddr paddr flags) other = walk paging other := by
    rw [mapped.walk_eq, represents.walk_eq, flatStep, Function.update_of_ne different]
  simp only [effective, same]
  cases represents.mapPage_entries paddr flags supplied with
  | inl existing => rw [existing.2]
  | inr created =>
      obtain ⟨empty, target, entries⟩ := created
      rw [entries]
      by_cases slot : pdIndex other = pdIndex vaddr
      · have unmapped : walk paging other = none := by
          rw [walk, slot, represents.absent _ empty]
          rfl
        rw [unmapped]
        rfl
      · rw [Function.update_of_ne slot]

/-- What the processor grants on the page after `map_page`. -/
theorem Represents.effective_mapped (represents : Represents paging flat) (paddr : Nat)
    (supplied : (directory paging).tables (pdIndex vaddr) ≠ 0 ∨ (allocFrame paging.pmm).2 ≠ 0) :
    effective (Direct.mapPage paging vaddr paddr flags) vaddr =
      some ⟨user ((directory (Direct.mapPage paging vaddr paddr flags)).entries (pdIndex vaddr)) &&&
          flagBit flags pageUser,
        rw ((directory (Direct.mapPage paging vaddr paddr flags)).entries (pdIndex vaddr)) &&&
          flagBit flags pageRw⟩ := by
  have mapped := represents.mapPage_supplied vaddr paddr flags supplied
  rw [effective, mapped.walk_eq, flatStep, Function.update_self, Option.map_some]

theorem Represents.grantsOnly_iff (represents : Represents paging flat) (paddr : Nat)
    (lands : Lands paging (.map vaddr paddr flags)) :
    GrantsOnly paging vaddr paddr flags ↔ DirectoryPermits paging vaddr flags := by
  obtain ⟨supplied, reaches⟩ := lands
  have others : ∀ other, pageNumber other ≠ pageNumber vaddr →
      effective (Direct.mapPage paging vaddr paddr flags) other = effective paging other :=
    fun other different => represents.effective_other supplied different
  have userBit : user ((directory (Direct.mapPage paging vaddr paddr flags)).entries
      (pdIndex vaddr)) < 2 := field_lt
  have rwBit : rw ((directory (Direct.mapPage paging vaddr paddr flags)).entries
      (pdIndex vaddr)) < 2 := field_lt
  have only : GrantsOnly paging vaddr paddr flags ↔
      Grants (Direct.mapPage paging vaddr paddr flags) vaddr flags := by
    rw [GrantsOnly, represents.mapPage_direct paddr flags reaches]
    constructor
    · rintro ⟨next, same, grants, _⟩
      cases same
      exact grants
    · intro grants
      exact ⟨_, rfl, grants, others⟩
  simp only [only, Grants, represents.effective_mapped paddr supplied, Option.some.injEq,
    exists_eq_left', and_eq_one userBit flagBit_lt, and_eq_one rwBit flagBit_lt, flagBit_eq_one,
    DirectoryPermits]
  cases represents.mapPage_entries paddr flags supplied with
  | inl existing =>
      rw [existing.2]
      tauto
  | inr created =>
      obtain ⟨empty, target, entries⟩ := created
      rw [entries, Function.update_self, user_fillEntry, rw_fillEntry, flagBit_eq_one,
        flagBit_eq_one]
      tauto

/-- After every run whose operations find their tables mapped to themselves, such
a `map_page` that succeeds grants what its flags say, and changes no other page,
exactly when the directory entry permits it. -/
theorem permissions_effective_iff (contents : Bitmap) (totalMemoryKb : Nat) (memory : Memory)
    (directories : Nat → Directory) (kernelPageDir : Nat) (ops : List Op) (paging : PageManager)
    (available : (allocFrame (initPmm contents totalMemoryKb)).2 ≠ 0)
    (reaches : Along step Reaches
      (boot contents totalMemoryKb memory directories kernelPageDir) ops)
    (reached : run step (boot contents totalMemoryKb memory directories kernelPageDir) ops =
      some paging) (vaddr paddr flags : Nat)
    (lands : Lands paging (.map vaddr paddr flags)) :
    GrantsOnly paging vaddr paddr flags ↔ DirectoryPermits paging vaddr flags := by
  obtain ⟨flat, represents⟩ := (boot_represents available).run_any reaches reached
  exact represents.grantsOnly_iff paddr lands

/-- The identity table's directory entry is closed to the user. -/
theorem boot_closed {contents : Bitmap} {totalMemoryKb kernelPageDir : Nat} {memory : Memory}
    {directories : Nat → Directory}
    (room : reservedPages (initPmm contents totalMemoryKb).totalPages <
      (initPmm contents totalMemoryKb).totalPages) :
    (directory (boot contents totalMemoryKb memory directories kernelPageDir)).tables 0 ≠ 0 ∧
      user ((directory (boot contents totalMemoryKb memory directories kernelPageDir)).entries 0) =
        0 := by
  have sequential := initPmm_sequential room.le
  have notNull : reservedPages (initPmm contents totalMemoryKb).totalPages * 4096 ≠ 0 := by
    have positive := sequential.positive
    omega
  rw [boot, initPaging_eq (sequential.allocFrame_eq room) notNull]
  simp only [directory, activeDir, ite_self, Function.update_self]
  exact ⟨notNull, user_identityEntry⟩

theorem permissions_effective_iff_remapped :
    ∃ paging, run step (boot (fun _ => 0) 8192 (fun _ => 0) (fun _ => ⟨fun _ => 0, fun _ => 0⟩) 4096)
        [.map 0x1000 0x2000 3] = some paging ∧
      (GrantsOnly paging 0x1000 0x5000 7 ↔ DirectoryPermits paging 0x1000 7) := by
  have low := @boot_low (fun _ => 0) 4096 (fun _ => 0) (fun _ => ⟨fun _ => 0, fun _ => 0⟩)
  have first : Lands _ (.map 0x1000 0x2000 3) := low.lands rfl rfl rfl 0x2000 3
  have taken := low.represents.step_direct first.2
  have reached : run step _ [.map 0x1000 0x2000 3] = some _ := run_cons taken
  exact ⟨_, reached, permissions_effective_iff (fun _ => 0) 8192 (fun _ => 0)
    (fun _ => ⟨fun _ => 0, fun _ => 0⟩) 4096 [.map 0x1000 0x2000 3] _
    (boot_available room_eight_megabytes) ⟨first.2, fun _ _ => trivial⟩ reached 0x1000 0x5000 7
    ((low.step 0x1000 rfl 0x2000 3).1.lands rfl rfl rfl 0x5000 7)⟩

/-- A user page in the low four megabytes stays closed to the user. -/
theorem user_page_closed :
    ¬ GrantsOnly (boot (fun _ => 0) 8192 (fun _ => 0) (fun _ => ⟨fun _ => 0, fun _ => 0⟩) 4096)
      0x1000 0x1000 7 := by
  obtain ⟨table, closed⟩ := @boot_closed (fun _ => 0) 8192 4096 (fun _ => 0)
    (fun _ => ⟨fun _ => 0, fun _ => 0⟩) room_eight_megabytes
  have low := @boot_low (fun _ => 0) 4096 (fun _ => 0) (fun _ => ⟨fun _ => 0, fun _ => 0⟩)
  have lands : Lands _ (.map 0x1000 0x1000 7) := low.lands rfl rfl rfl 0x1000 7
  have slot : pdIndex 0x1000 = 0 := rfl
  rw [low.represents.grantsOnly_iff 0x1000 lands, DirectoryPermits, slot, closed]
  intro permits
  cases permits with
  | inl empty => exact table empty
  | inr bits =>
      have opened := bits.1 (by decide)
      cases opened

end

end Helios.Paging
