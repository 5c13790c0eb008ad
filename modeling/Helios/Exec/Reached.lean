import Helios.Exec.Loading

namespace Helios.Exec

open Helios.Data Helios.Pmm Helios.Paging

/-! The page tables that `ramdisk_load` needs.

Where every table that a load uses is mapped to itself, `map_page` does not
fault, and stores in the tables' own frames. -/

/-- The allocator and the tables behind one page of a load: a frame for the page,
and another one where its slot has no table. -/
def supplyPage (slot : Nat) (supply : PmmManager × (Nat → Nat)) : PmmManager × (Nat → Nat) :=
  let pmm := (allocFrame supply.1).1
  if supply.2 slot ≠ 0 then (pmm, supply.2)
  else ((allocFrame pmm).1, Function.update supply.2 slot (allocFrame pmm).2)

/-- The allocator and the tables behind the first pages of a load. -/
def supplies (start : PageManager) (size : Nat) : Nat → PmmManager × (Nat → Nat)
  | 0 => (start.pmm, (directory start).tables)
  | count + 1 => supplyPage (loadSlot size count) (supplies start size count)

/-- The table that a load uses for one of its pages, the old one of the slot or
the frame that `alloc_frame` gives. -/
def loadTable (start : PageManager) (size index : Nat) : Nat :=
  (supplies start size (index + 1)).2 (loadSlot size index)

/-- The table for a page, if there is one, is mapped to itself, and still is when
the load comes to it: no page before has taken the place of the table's own. -/
def TableReached (start : PageManager) (size index : Nat) : Prop :=
  loadTable start size index ≠ 0 → SelfMapped start (loadTable start size index) ∧
    ∀ earlier < index, pageNumber (loadVaddr size earlier) ≠ pageNumber (loadTable start size index)

def TablesReached (start : PageManager) (size : Nat) : Prop :=
  ∀ index ≤ codePages size, TableReached start size index

/-- The page of the table for a page is not mapped, and no page before is put there. -/
structure TableMissing (start : PageManager) (size index : Nat) : Prop where
  exists_table : loadTable start size index ≠ 0
  unmapped : walk start (loadTable start size index) = none
  apart : ∀ earlier < index,
    pageNumber (loadVaddr size earlier) ≠ pageNumber (loadTable start size index)

/-- A load has its first pages behind it, with the allocator and the tables foretold. -/
structure Foretold (start : PageManager) (flat : FlatMap) (size : Nat) (frames : Nat → Nat)
    (count : Nat) (paging : PageManager) : Prop where
  represents : Represents start flat
  placed : Placed start flat size frames count paging
  supply : (paging.pmm, (directory paging).tables) = supplies start size count

section

variable {start paging after : PageManager} {flat : FlatMap} {frames : Nat → Nat}
variable {pmm : PmmManager} {code size off fuel vaddr paddr flags count index slot : Nat}

theorem mapPage_supply : ((Direct.mapPage { paging with pmm } vaddr paddr flags).pmm,
      (directory (Direct.mapPage { paging with pmm } vaddr paddr flags)).tables) =
    if (directory paging).tables (pdIndex vaddr) ≠ 0 then (pmm, (directory paging).tables)
    else ((allocFrame pmm).1,
      Function.update (directory paging).tables (pdIndex vaddr) (allocFrame pmm).2) := by
  by_cases here : (directory paging).tables (pdIndex vaddr) ≠ 0
  · obtain ⟨samePmm, sameTables⟩ := mapPage_existing pmm paddr flags here
    rw [if_pos here, samePmm, sameTables]
  · rw [if_neg here]
    have empty := not_not.mp here
    cases result : allocFrame pmm with
    | mk last table =>
        by_cases null : table = 0
        · have failed : Direct.mapPage { paging with pmm } vaddr paddr flags =
              { paging with pmm := last } := by
            have missing : (directory { paging with pmm }).tables (pdIndex vaddr) = 0 := empty
            simp only [Direct.mapPage, Direct.ensureTable, Direct.createPageTable, missing, result,
              null, ne_eq, not_true_eq_false, if_false, if_true]
          rw [failed, null, ← empty, Function.update_eq_self]
          rfl
        · obtain ⟨samePmm, sameTables⟩ := mapPage_created paddr flags empty result null
          rw [samePmm, sameTables]

theorem loadPage_supply (loaded : loadPage directMap paging code size off = .done after) :
    (after.pmm, (directory after).tables) =
      supplyPage (pdIndex (u32 (userBase + off))) (paging.pmm, (directory paging).tables) := by
  cases result : allocFrame paging.pmm with
  | mk pmm page =>
      by_cases null : page = 0
      · rw [loadPage, result] at loaded
        simp [null] at loaded
      · obtain ⟨memory, same⟩ := memcpy_memory ((loadPage_eq_done result null).mp loaded)
        rw [same, supplyPage]
        simp only [result]
        exact mapPage_supply

theorem loadTable_eq : loadTable start size index =
    if (supplies start size index).2 (loadSlot size index) ≠ 0 then
      (supplies start size index).2 (loadSlot size index)
    else (allocFrame (allocFrame (supplies start size index).1).1).2 := by
  rw [loadTable, supplies, supplyPage]
  by_cases here : (supplies start size index).2 (loadSlot size index) ≠ 0
  · simp only [here, ne_eq, not_false_eq_true, if_true]
  · simp only [here, if_false, Function.update_self]

/-- A load never gives up a table. -/
theorem supplies_kept (here : (directory start).tables slot ≠ 0) :
    (supplies start size count).2 slot = (directory start).tables slot := by
  induction count with
  | zero => rfl
  | succ count ih =>
      rw [supplies, supplyPage]
      by_cases served : (supplies start size count).2 (loadSlot size count) ≠ 0
      · simp only [served, ne_eq, not_false_eq_true, if_true, ih]
      · have different : slot ≠ loadSlot size count := by
          intro same
          rw [← same, ih] at served
          exact served here
        simp only [served, if_false, Function.update_of_ne different, ih]

theorem loadTable_existing (here : (directory start).tables (loadSlot size index) ≠ 0) :
    loadTable start size index = (directory start).tables (loadSlot size index) :=
  supplies_kept here

/-- `map_page` uses the table that was foretold. -/
theorem Foretold.tableFor_eq (foretold : Foretold start flat size frames count paging) :
    tableFor { paging with pmm := (allocFrame paging.pmm).1 } (loadVaddr size count) =
      loadTable start size count := by
  rw [loadTable_eq, ← foretold.supply]
  rfl

/-- No page before has moved the table's own page. -/
theorem Foretold.walk_table (foretold : Foretold start flat size frames count paging)
    (apart : ∀ earlier < count,
      pageNumber (loadVaddr size earlier) ≠ pageNumber (loadTable start size count)) :
    walk { paging with pmm := (allocFrame paging.pmm).1 } (loadTable start size count) =
      walk start (loadTable start size count) := by
  rw [(foretold.placed.represents.grow (@allocFrame_grows paging.pmm)).walk_eq,
    foretold.represents.walk_eq]
  cases loadedFlat_cases flat size frames count (pageNumber (loadTable start size count)) with
  | inl loaded =>
      obtain ⟨earlier, less, here, _⟩ := loaded
      exact absurd here (apart earlier less)
  | inr untouched => exact untouched.2

theorem Foretold.reached (foretold : Foretold start flat size frames count paging)
    (reached : TableReached start size count) :
    tableFor { paging with pmm := (allocFrame paging.pmm).1 } (loadVaddr size count) ≠ 0 →
      SelfMapped { paging with pmm := (allocFrame paging.pmm).1 }
        (tableFor { paging with pmm := (allocFrame paging.pmm).1 } (loadVaddr size count)) := by
  rw [foretold.tableFor_eq]
  intro notNull
  obtain ⟨mapped, apart⟩ := reached notNull
  rw [SelfMapped, foretold.walk_table apart]
  exact mapped

theorem Foretold.missing (foretold : Foretold start flat size frames count paging)
    (missing : TableMissing start size count) (paddr flags : Nat) :
    mapPage { paging with pmm := (allocFrame paging.pmm).1 } (loadVaddr size count) paddr flags =
      none := by
  apply (foretold.placed.represents.grow allocFrame_grows).mapPage_fault
  · rw [foretold.tableFor_eq]
    exact missing.exists_table
  · rw [foretold.tableFor_eq, foretold.walk_table missing.apart]
    exact missing.unmapped

theorem Foretold.mapPage_direct (foretold : Foretold start flat size frames count paging)
    (reached : TableReached start size count) (paddr flags : Nat) :
    mapPage { paging with pmm := (allocFrame paging.pmm).1 } (loadVaddr size count) paddr flags =
      directMap { paging with pmm := (allocFrame paging.pmm).1 } (loadVaddr size count) paddr flags :=
  (foretold.placed.represents.grow allocFrame_grows).mapPage_direct paddr flags
    (foretold.reached reached)

theorem Foretold.loadPage_direct (foretold : Foretold start flat size frames count paging)
    (reached : TableReached start size count) (more : count < codePages size) :
    loadPage mapPage paging code size (count * 4096) =
      loadPage directMap paging code size (count * 4096) := by
  have placed := foretold.mapPage_direct reached (allocFrame paging.pmm).2 userFlags
  rw [loadVaddr_code more] at placed
  rw [loadPage, loadPage]
  split
  next pmm page result =>
    rw [result] at placed
    rw [placed]

theorem Foretold.loadStack_direct (foretold : Foretold start flat size frames (codePages size) paging)
    (reached : TableReached start size (codePages size)) :
    loadStack mapPage paging = loadStack directMap paging := by
  have placed := foretold.mapPage_direct reached (allocFrame paging.pmm).2 userFlags
  rw [loadVaddr_stack] at placed
  rw [loadStack, loadStack]
  split
  next pmm page result =>
    rw [result] at placed
    rw [placed]

theorem Foretold.next_page (foretold : Foretold start flat size frames count paging)
    (more : count < codePages size) (short : size ≤ 0xFFFFF000)
    (loaded : loadPage directMap paging code size (count * 4096) = .done after) :
    ∃ frame, Foretold start flat size (Function.update frames count frame) (count + 1) after ∧
      u32 (count * 4096 + 0x1000) = (count + 1) * 4096 := by
  have less := lt_codePages.mp more
  obtain ⟨frame, table, _, page⟩ :=
    loadPage_done foretold.placed.represents (by omega) less (by omega) loaded
  rw [← loadVaddr_code more, ← loadBytes_code more] at page
  refine ⟨frame, ⟨foretold.represents, foretold.placed.step page, ?_⟩, ?_⟩
  · rw [loadPage_supply loaded, foretold.supply, supplies, loadSlot, loadVaddr_code more]
  · rw [u32]
    omega

theorem foretold_start (represents : Represents start flat) :
    Foretold start flat size frames 0 start :=
  ⟨represents, placed_start represents, rfl⟩

/-- The loop with its stores through the directory is the one with its stores in
the frames of the tables. -/
theorem Foretold.pages_direct (foretold : Foretold start flat size frames count paging)
    (reached : TablesReached start size) (short : size ≤ 0xFFFFF000)
    (below : count ≤ codePages size) :
    loadPages mapPage fuel paging code size (count * 4096) =
        loadPages directMap fuel paging code size (count * 4096) ∧
      ∀ after, loadPages directMap fuel paging code size (count * 4096) = some (.done after) →
        ∃ frames, Foretold start flat size frames (codePages size) after := by
  induction fuel generalizing paging count frames with
  | zero => exact ⟨rfl, fun _ same => absurd same (by simp [loadPages])⟩
  | succ fuel ih =>
      by_cases less : count * 4096 < size
      · have more := lt_codePages.mpr less
        simp only [loadPages, less, if_true, foretold.loadPage_direct (reached count below) more]
        cases body : loadPage directMap paging code size (count * 4096) with
        | fault => exact ⟨rfl, fun _ same => absurd same (by simp)⟩
        | failed stopped => exact ⟨rfl, fun _ same => absurd same (by simp)⟩
        | done middle =>
            obtain ⟨frame, later, next⟩ := foretold.next_page more short body
            simp only [next]
            exact ih later more
      · have whole := mt lt_codePages.mp less
        rw [loadPages_end less, loadPages_end less]
        refine ⟨rfl, fun after same => ?_⟩
        cases same
        rw [show codePages size = count by omega]
        exact ⟨frames, foretold⟩

variable {ramdisk : Ramdisk} {path : List UInt8} {entry : RamdiskEntry}

/-- A load whose tables are reached stores where it would with paging off. -/
theorem ramdiskLoad_direct (represents : Represents start flat)
    (found : search ramdisk path = some entry) (short : entry.size ≤ 0xFFFFF000)
    (reached : TablesReached start entry.size) :
    ramdiskLoad ramdisk path start = loadImage directMap ramdisk path start := by
  have initial : Foretold start flat entry.size (fun _ => 0) 0 start := foretold_start represents
  obtain ⟨pages, later⟩ := @Foretold.pages_direct _ _ _ _ entry.data _ (start.pmm.totalPages + 1) _
    initial reached short (Nat.zero_le _)
  rw [Nat.zero_mul] at pages later
  rw [ramdiskLoad, loadImage, loadImage, found]
  simp only [pages]
  by_cases data : entry.data = 0
  · simp only [data, if_true]
  · simp only [data, if_false]
    cases loaded : loadPages directMap (start.pmm.totalPages + 1) start entry.data entry.size 0 with
    | none => rfl
    | some ended =>
        cases ended with
        | fault => rfl
        | failed stopped => rfl
        | done middle =>
            obtain ⟨frames, foretold⟩ := later middle loaded
            simp only [foretold.loadStack_direct (reached _ (Nat.le_refl _))]

theorem loadImage_small {map : MapPage} (found : search ramdisk path = some entry)
    (loads : loadImage map ramdisk path start = some (.done after)) : entry.size ≤ 0xFFFFF000 := by
  obtain ⟨same, middle, here, _, pages, _⟩ := loadImage_eq_done.mp loads
  rw [found, Option.some.injEq] at here
  subst here
  exact loadPages_small pages (by decide) (by decide)

/-- What a load does that returns 0 and reaches its tables. -/
theorem ramdiskLoad_loaded (ready : Ready start flat) (found : search ramdisk path = some entry)
    (reached : TablesReached start entry.size)
    (loads : ramdiskLoad ramdisk path start = some (.done after)) :
    loadImage directMap ramdisk path start = some (.done after) ∧ entry.size ≤ 0xFFFFF000 ∧
      Loaded start flat entry.size after := by
  have short := loadImage_small found loads
  rw [ramdiskLoad_direct ready.represents found short reached] at loads
  exact ⟨loads, short, (loadImage_loaded ready found loads).2⟩

/-- Tables in frames that are mapped to themselves below four megabytes are
reached, as a load maps no page there. -/
theorem tablesReached_low (few : codePages size < 1047552)
    (identity : ∀ page < 1024, SelfMapped start (page * 4096))
    (low : ∀ index ≤ codePages size, ∃ page < 1024, loadTable start size index = page * 4096) :
    TablesReached start size := by
  intro index below _
  obtain ⟨page, small, same⟩ := low index below
  rw [same]
  refine ⟨identity page small, fun earlier less => ?_⟩
  rw [pageNumber_code (by omega), pageNumber, u32_of_lt (by omega)]
  omega

/-- A load whose tables exist finds them. -/
theorem tablesReached_existing (few : codePages size < 1047552)
    (identity : ∀ page < 1024, SelfMapped start (page * 4096))
    (existing : ∀ index ≤ codePages size, (directory start).tables (loadSlot size index) ≠ 0 ∧
      ∃ page < 1024, (directory start).tables (loadSlot size index) = page * 4096) :
    TablesReached start size := by
  refine tablesReached_low few identity fun index below => ?_
  rw [loadTable_existing (existing index below).1]
  exact (existing index below).2

theorem supplyPage_low {next : Nat} {supply : PmmManager × (Nat → Nat)} (slot : Nat)
    (sequential : Sequential supply.1 next) (room : next + 2 ≤ 1024)
    (low : ∀ other, ∃ page < 1024, supply.2 other = page * 4096) :
    ∃ later ≤ next + 2, Sequential (supplyPage slot supply).1 later ∧
      ∀ other, ∃ page < 1024, (supplyPage slot supply).2 other = page * 4096 := by
  obtain ⟨middle, ordered, taken, _⟩ := sequential.allocFrame_next
  rw [supplyPage]
  by_cases here : supply.2 slot ≠ 0
  · simp only [here, ne_eq, not_false_eq_true, if_true]
    exact ⟨middle, by omega, taken, low⟩
  · simp only [here, if_false]
    obtain ⟨last, orderedNext, takenNext, page, below, result⟩ := taken.allocFrame_next
    refine ⟨last, by omega, takenNext, fun other => ?_⟩
    by_cases same : other = slot
    · rw [same, Function.update_self]
      exact ⟨page, by omega, result⟩
    · rw [Function.update_of_ne same]
      exact low other

theorem supplies_low {next : Nat} (sequential : Sequential start.pmm next)
    (low : ∀ slot, ∃ page < 1024, (directory start).tables slot = page * 4096)
    (room : next + 2 * count ≤ 1024) :
    ∃ later ≤ next + 2 * count, Sequential (supplies start size count).1 later ∧
      ∀ slot, ∃ page < 1024, (supplies start size count).2 slot = page * 4096 := by
  induction count with
  | zero => exact ⟨next, Nat.le_refl _, sequential, low⟩
  | succ count ih =>
      obtain ⟨middle, ordered, taken, tables⟩ := ih (by omega)
      obtain ⟨later, orderedNext, takenNext, tablesNext⟩ :=
        supplyPage_low (loadSlot size count) taken (by omega) tables
      exact ⟨later, by omega, takenNext, tablesNext⟩

/-- While the frames below four megabytes last, a load reaches its tables. -/
theorem tablesReached_sequential {next : Nat}
    (identity : ∀ page < 1024, SelfMapped start (page * 4096))
    (sequential : Sequential start.pmm next)
    (low : ∀ slot, ∃ page < 1024, (directory start).tables slot = page * 4096)
    (room : next + 2 * (codePages size + 1) ≤ 1024) : TablesReached start size := by
  refine tablesReached_low (by omega) identity fun index below => ?_
  obtain ⟨_, _, _, tables⟩ := @supplies_low start size (index + 1) next sequential low (by omega)
  exact tables (loadSlot size index)

end

end Helios.Exec
