import Helios.Paging.Tables

namespace Helios.Paging

open Helios.Data Helios.Pmm

/-! Page tables seen through the page directory.

Once paging is on, the pointer to a table is a virtual address.  The stores of
`map_page` and `unmap_page` land in the table's own frame as long as the current
directory maps the page of the table to itself. -/

/-- The table that `map_page` writes through: the one in the directory slot, or
the frame that `create_page_table` gets. -/
def tableFor (paging : PageManager) (vaddr : Nat) : Nat :=
  if (directory paging).tables (pdIndex vaddr) ≠ 0 then (directory paging).tables (pdIndex vaddr)
  else (allocFrame paging.pmm).2

/-- The page of the table is mapped to the table's frame. -/
def SelfMapped (paging : PageManager) (table : Nat) : Prop :=
  ∃ mapping, walk paging table = some mapping ∧ mapping.frame * 4096 = table

/-- The table that the operation uses is mapped to itself before it. -/
def Reaches (paging : PageManager) : Op → Prop
  | .map vaddr _ _ => tableFor paging vaddr ≠ 0 → SelfMapped paging (tableFor paging vaddr)
  | .unmap vaddr => (directory paging).tables (pdIndex vaddr) ≠ 0 →
      SelfMapped paging ((directory paging).tables (pdIndex vaddr))
  | .alloc => True

/-- The address lies in a page table of the directory. -/
def InTable (dir : Directory) (address : Nat) : Prop :=
  ∃ slot, dir.tables slot ≠ 0 ∧ dir.tables slot ≤ address ∧ address < dir.tables slot + 4096

/-- Accesses to the table land in its own frame. -/
def Finds (reach : PageManager → Nat → Option Nat) (paging : PageManager) (table : Nat) : Prop :=
  ∀ offset < 4096, reach paging (table + offset) = some (table + offset)

section

variable {reach : PageManager → Nat → Option Nat} {paging next : PageManager} {flat : FlatMap}
variable {op : Op} {vaddr other paddr flags slot table page offset : Nat}

theorem walk_page (same : pageNumber vaddr = pageNumber other) :
    walk paging vaddr = walk paging other := by
  rw [walk, walk, pdIndex_eq, pdIndex_eq, ptIndex_eq, ptIndex_eq, same]

theorem pageNumber_of_page (small : page < 1048576) (inside : offset < 4096) :
    pageNumber (page * 4096 + offset) = page := by
  rw [pageNumber, u32_of_lt (by omega)]
  omega

theorem SelfMapped.finds (mapped : SelfMapped paging (page * 4096)) (small : page < 1048576) :
    Finds translate paging (page * 4096) := by
  intro offset inside
  obtain ⟨mapping, walked, itself⟩ := mapped
  have same : walk paging (page * 4096 + offset) = walk paging (page * 4096) := by
    apply walk_page
    rw [pageNumber_of_page small inside, ← Nat.add_zero (page * 4096),
      pageNumber_of_page small (by decide)]
  have inFrame : (page * 4096 + offset) % 4096 = offset := by omega
  rw [translate, same, walked, Option.map_some, itself, inFrame]

theorem Represents.selfMapped_iff (represents : Represents paging flat) :
    SelfMapped paging table ↔
      ∃ mapping, flat (pageNumber table) = some mapping ∧ mapping.frame * 4096 = table := by
  rw [SelfMapped, represents.walk_eq]

theorem Represents.selfMapped_page {mapping : Mapping} (represents : Represents paging flat)
    (small : page < 1048576) (mapped : flat page = some mapping) (itself : mapping.frame = page) :
    SelfMapped paging (page * 4096) := by
  refine represents.selfMapped_iff.mpr ⟨mapping, ?_, by rw [itself]⟩
  rw [← Nat.add_zero (page * 4096), pageNumber_of_page small (by decide)]
  exact mapped

theorem Represents.table_page (represents : Represents paging flat)
    (here : (directory paging).tables slot ≠ 0) :
    ∃ page, page < 1048576 ∧ (directory paging).tables slot = page * 4096 := by
  have bounded := represents.bounded
  obtain ⟨page, address, inside, _⟩ := represents.tables slot here
  exact ⟨page, by omega, address⟩

theorem Represents.tableFor_page (represents : Represents paging flat)
    (found : tableFor paging vaddr ≠ 0) :
    ∃ page, page < 1048576 ∧ tableFor paging vaddr = page * 4096 := by
  have bounded := represents.bounded
  by_cases empty : (directory paging).tables (pdIndex vaddr) = 0
  · simp only [tableFor, empty, ne_eq, not_true_eq_false, if_false] at found ⊢
    cases allocFrame_fresh represents.bounded represents.nullUsed with
    | inl failed => simp [failed] at found
    | inr fresh =>
        obtain ⟨page, inside, _, _, result, _⟩ := fresh
        exact ⟨page, by omega, by rw [result]⟩
  · simp only [tableFor, empty, ne_eq, not_false_eq_true, if_true]
    exact represents.table_page empty

/-- A new table changes no walk. -/
theorem Represents.ensureTable (represents : Represents paging flat) (slot flags : Nat) :
    Represents (Direct.ensureTable paging slot flags).1 flat := by
  cases represents.ensureTable_cases slot flags with
  | inl failed =>
      rw [failed.2.2]
      exact represents
  | inr supplied =>
      obtain ⟨after, table, result, _, _, kept⟩ := supplied
      rw [result]
      exact kept

/-- `ensureTable` returns the table of `tableFor`. -/
theorem ensureTable_table (paging : PageManager) (vaddr flags : Nat) :
    (Direct.ensureTable paging (pdIndex vaddr) flags).2 = tableFor paging vaddr := by
  by_cases here : (directory paging).tables (pdIndex vaddr) ≠ 0
  · rw [ensureTable_existing here, tableFor, if_pos here]
  · rw [tableFor, if_neg here]
    cases result : allocFrame paging.pmm with
    | mk pmm table =>
        by_cases null : table = 0
        · simp [Direct.ensureTable, Direct.createPageTable, here, result, null]
        · rw [ensureTable_created (not_not.mp here) result null]

/-- Where the table is reached, it comes to exist as with paging off. -/
theorem ensureTable_direct
    (found : tableFor paging vaddr ≠ 0 → Finds reach paging (tableFor paging vaddr)) :
    ensureTable reach paging (pdIndex vaddr) flags =
      some (Direct.ensureTable paging (pdIndex vaddr) flags) := by
  by_cases here : (directory paging).tables (pdIndex vaddr) ≠ 0
  · rw [ensureTable, if_pos here, ensureTable_existing here]
  · rw [tableFor, if_neg here] at found
    rw [ensureTable, if_neg here, Direct.ensureTable, if_neg here, createPageTable,
      Direct.createPageTable]
    cases result : allocFrame paging.pmm with
    | mk pmm table =>
        rw [result] at found
        by_cases null : table = 0
        · simp only [null, if_true, Option.map_some]
        · have address := found null 0 (by decide)
          rw [Nat.add_zero] at address
          simp only [null, if_false, address, Option.map_some]

/-- Where the table is reached, `map_page` stores as with paging off. -/
theorem mapPageVia_direct
    (found : tableFor paging vaddr ≠ 0 → Finds reach paging (tableFor paging vaddr))
    (still : tableFor paging vaddr ≠ 0 →
      Finds reach (Direct.ensureTable paging (pdIndex vaddr) flags).1 (tableFor paging vaddr)) :
    mapPageVia reach paging vaddr paddr flags = some (Direct.mapPage paging vaddr paddr flags) := by
  have index : ptIndex vaddr < 1024 := ptIndex_lt
  rw [← ensureTable_table paging vaddr flags] at still
  rw [mapPageVia, ensureTable_direct found, Option.bind_some, Direct.mapPage]
  cases result : Direct.ensureTable paging (pdIndex vaddr) flags with
  | mk middle table =>
      rw [result] at still
      by_cases null : table = 0
      · simp only [null, if_true]
      · simp only [null, if_false, still null (4 * ptIndex vaddr) (by omega), Option.map_some,
          setEntryWord, entryWord]

theorem unmapPageVia_direct
    (found : (directory paging).tables (pdIndex vaddr) ≠ 0 →
      Finds reach paging ((directory paging).tables (pdIndex vaddr))) :
    unmapPageVia reach paging vaddr = some (Direct.unmapPage paging vaddr) := by
  have index : ptIndex vaddr < 1024 := ptIndex_lt
  simp only [unmapPageVia, Direct.unmapPage]
  by_cases empty : (directory paging).tables (pdIndex vaddr) = 0
  · simp only [empty, if_true]
  · simp only [empty, if_false, found empty (4 * ptIndex vaddr) (by omega), Option.map_some,
      setEntryWord, entryWord]

theorem Represents.finds (represents : Represents paging flat) {after : PageManager}
    (kept : Represents after flat) (small : page < 1048576)
    (mapped : SelfMapped paging (page * 4096)) : Finds translate after (page * 4096) :=
  SelfMapped.finds (kept.selfMapped_iff.mpr (represents.selfMapped_iff.mp mapped)) small

/-- Where the table is mapped to itself, `map_page` stores as with paging off. -/
theorem Represents.mapPage_direct (represents : Represents paging flat) (paddr flags : Nat)
    (reaches : tableFor paging vaddr ≠ 0 → SelfMapped paging (tableFor paging vaddr)) :
    mapPage paging vaddr paddr flags = some (Direct.mapPage paging vaddr paddr flags) := by
  have anywhere : ∀ after, Represents after flat → tableFor paging vaddr ≠ 0 →
      Finds translate after (tableFor paging vaddr) := by
    intro after kept found
    have mapped := reaches found
    obtain ⟨page, small, whole⟩ := represents.tableFor_page found
    rw [whole] at mapped ⊢
    exact represents.finds kept small mapped
  exact mapPageVia_direct (anywhere paging represents)
    (anywhere _ (represents.ensureTable (pdIndex vaddr) flags))

theorem Represents.unmapPage_direct (represents : Represents paging flat)
    (reaches : (directory paging).tables (pdIndex vaddr) ≠ 0 →
      SelfMapped paging ((directory paging).tables (pdIndex vaddr))) :
    Paging.unmapPage paging vaddr = some (Direct.unmapPage paging vaddr) := by
  apply unmapPageVia_direct
  intro here
  have mapped := reaches here
  obtain ⟨page, small, whole⟩ := represents.table_page here
  rw [whole] at mapped ⊢
  exact mapped.finds small

/-- An operation whose table is mapped to itself does not fault, and stores
where it would with paging off. -/
theorem Represents.step_direct (represents : Represents paging flat) (reaches : Reaches paging op) :
    step paging op = some (Direct.step paging op) := by
  cases op with
  | map vaddr paddr flags => exact represents.mapPage_direct paddr flags reaches
  | unmap vaddr => exact represents.unmapPage_direct reaches
  | alloc => rfl

theorem Represents.step_any (represents : Represents paging flat) (reaches : Reaches paging op)
    (taken : step paging op = some next) :
    Represents next (if Supplied paging op then flatStep flat op else flat) := by
  rw [represents.step_direct reaches, Option.some.injEq] at taken
  exact taken ▸ represents.direct_any

theorem Represents.outside (represents : Represents paging flat) {memory : Memory}
    (agree : ∀ address, InTable (directory paging) address → memory address = paging.memory address) :
    Represents { paging with memory } flat := by
  refine ⟨represents.bounded, represents.nullUsed, represents.tables, represents.distinct,
    represents.absent, represents.entry, ?_⟩
  intro slot index inside
  rw [← represents.contents slot index inside]
  show (if (directory paging).tables slot = 0 then none else
    decode (entryWord memory ((directory paging).tables slot) index)) = lookup paging slot index
  by_cases missing : (directory paging).tables slot = 0
  · simp only [lookup, missing, if_true]
  · rw [lookup, if_neg missing, if_neg missing, entryWord, entryWord]
    rw [Memory.load32_congr fun position lower upper =>
      agree position ⟨slot, missing, by omega, by omega⟩]

theorem createPageTable_grows (created : createPageTable reach paging = some (next, table)) :
    Grows paging.pmm next.pmm := by
  have grows := @allocFrame_grows paging.pmm
  simp only [createPageTable] at created
  by_cases null : (allocFrame paging.pmm).2 = 0
  · simp only [null, if_true] at created
    cases created
    exact grows
  · simp only [null, if_false] at created
    obtain ⟨address, _, filled⟩ := Option.map_eq_some_iff.mp created
    cases filled
    exact grows

theorem ensureTable_grows (ensured : ensureTable reach paging slot flags = some (next, table)) :
    Grows paging.pmm next.pmm := by
  rw [ensureTable] at ensured
  by_cases here : (directory paging).tables slot ≠ 0
  · rw [if_pos here] at ensured
    cases ensured
    exact Grows.refl
  · rw [if_neg here] at ensured
    obtain ⟨⟨middle, created⟩, creation, same⟩ := Option.map_eq_some_iff.mp ensured
    have grows := createPageTable_grows creation
    by_cases null : created = 0
    · simp only [null, if_true] at same
      cases same
      exact grows
    · simp only [null, if_false] at same
      cases same
      exact grows

/-- Frames are taken by `map_page`, wherever its stores land, and never freed. -/
theorem mapPageVia_grows (mapped : mapPageVia reach paging vaddr paddr flags = some next) :
    Grows paging.pmm next.pmm := by
  obtain ⟨⟨middle, table⟩, ensured, stored⟩ := Option.bind_eq_some_iff.mp mapped
  have grows := ensureTable_grows ensured
  by_cases null : table = 0
  · simp only [null, if_true, Option.some.injEq] at stored
    exact stored ▸ grows
  · simp only [null, if_false] at stored
    obtain ⟨address, _, same⟩ := Option.map_eq_some_iff.mp stored
    rw [← same]
    exact grows

/-- A table whose page is not mapped is not reached. -/
theorem Represents.mapPage_fault (represents : Represents paging flat) (found : tableFor paging vaddr ≠ 0)
    (unmapped : walk paging (tableFor paging vaddr) = none) : mapPage paging vaddr paddr flags = none := by
  have index : ptIndex vaddr < 1024 := ptIndex_lt
  obtain ⟨page, small, whole⟩ := represents.tableFor_page found
  have missing : ∀ offset < 4096, translate paging (tableFor paging vaddr + offset) = none := by
    intro offset inside
    have same : walk paging (tableFor paging vaddr + offset) = walk paging (tableFor paging vaddr) := by
      apply walk_page
      rw [whole, pageNumber_of_page small inside, ← Nat.add_zero (page * 4096),
        pageNumber_of_page small (by decide)]
    rw [translate, same, unmapped, Option.map_none]
  by_cases here : (directory paging).tables (pdIndex vaddr) ≠ 0
  · rw [tableFor, if_pos here] at missing
    simp only [mapPage, mapPageVia, Paging.ensureTable, here, ne_eq, not_false_eq_true, if_true,
      Option.bind_some, if_false, missing (4 * ptIndex vaddr) (by omega), Option.map_none]
  · rw [tableFor, if_neg here] at found missing
    have address := missing 0 (by decide)
    rw [Nat.add_zero] at address
    cases result : allocFrame paging.pmm with
    | mk pmm table =>
        rw [result] at found address
        simp only [mapPage, mapPageVia, Paging.ensureTable, here, if_false, createPageTable, result, found,
          address, Option.map_none, Option.bind_none]

end

end Helios.Paging
