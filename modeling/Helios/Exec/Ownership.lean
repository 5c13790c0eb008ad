import Helios.Exec.Reached

namespace Helios.Exec

open Helios.Data Helios.Pmm Helios.Paging Helios.Process

/-! The frames that `sys_execve` takes and loses.

Nothing records the owner of a frame but the page tables, and neither
`map_page` nor `ramdisk_load` calls `free_frame` for the frame that it replaces. -/

/-- The frame is in use, and not since `init_pmm`. -/
def Allocated (pmm : PmmManager) (page : Nat) : Prop :=
  reservedPages pmm.totalPages ≤ page ∧ page < pmm.totalPages ∧ pmm.bitmap.test page = true

/-- The current directory maps some page to the frame. -/
def Reached (paging : PageManager) (page : Nat) : Prop :=
  ∃ vaddr mapping, walk paging vaddr = some mapping ∧ mapping.frame = page

def NoLeak (paging : PageManager) : Prop :=
  ∀ page, Allocated paging.pmm page → Reached paging page ∨ HoldsTable (directory paging) page

/-- A load of `size` bytes maps the page. -/
def Remapped (size page : Nat) : Prop :=
  ∃ index < codePages size + 1, pageNumber (loadVaddr size index) = page

/-- The frames whose mappings a load replaces have another owner. -/
def Spares (paging : PageManager) (size : Nat) : Prop :=
  ∀ vaddr mapping, walk paging vaddr = some mapping → Remapped size (pageNumber vaddr) →
    Allocated paging.pmm mapping.frame → HoldsTable (directory paging) mapping.frame ∨
      ∃ other kept, walk paging other = some kept ∧ kept.frame = mapping.frame ∧
        ¬ Remapped size (pageNumber other)

/-- A load of `size` bytes loses no frame: it reaches its tables, it replaces no
mapping that is the last of its frame, the code ends below the stack page, and
the stack page gets its table. -/
structure KeepsFrames (paging : PageManager) (size : Nat) : Prop where
  reached : TablesReached paging size
  spares : Spares paging size
  apart : ∀ index < codePages size,
    pageNumber (loadVaddr size index) ≠ pageNumber (stackVaddr - 0x1000)
  backed : StackBacked paging size

/-- A successful `sys_execve` of one of the images of a ramdisk. -/
def execStep (state : PageManager × Pcb) (exec : Ramdisk × List UInt8) : Option (PageManager × Pcb) :=
  match sysExecve exec.1 exec.2 state.1 state.2 with
  | some (.returned paging current code) => if code = 0 then some (paging, current) else none
  | _ => none

def Keeps (state : PageManager × Pcb) (exec : Ramdisk × List UInt8) : Prop :=
  ∀ entry, search exec.1 exec.2 = some entry → KeepsFrames state.1 entry.size

section

variable {start paging after : PageManager} {flat : FlatMap} {frames : Nat → Nat}
variable {size count page frame : Nat}

theorem Placed.holdsTable (placed : Placed start flat size frames count paging)
    (used : start.pmm.bitmap.test page = true) :
    HoldsTable (directory paging) page ↔ HoldsTable (directory start) page := by
  constructor
  · intro holds
    obtain ⟨slot, small, here, address⟩ := holds
    refine ⟨slot, small, ?_⟩
    cases placed.tables slot with
    | inl same =>
        rw [← same.1]
        exact ⟨here, address⟩
    | inr added =>
        obtain ⟨fresh, itsAddress, clear⟩ := added.fresh
        rw [show page = fresh by omega, clear] at used
        cases used
  · intro holds
    obtain ⟨slot, small, here, address⟩ := holds
    refine ⟨slot, small, ?_⟩
    cases placed.tables slot with
    | inl same =>
        rw [same.1]
        exact ⟨here, address⟩
    | inr added => exact absurd added.empty here

/-- The pages of a load that were mapped before are mapped to its frames. -/
theorem Settled.covers (settled : Settled start flat size frames count after) {vaddr : Nat}
    {mapping : Mapping} (walked : walk start vaddr = some mapping)
    (remapped : Remapped size (pageNumber vaddr)) :
    ∃ index < count, pageNumber (loadVaddr size index) = pageNumber vaddr := by
  have code := settled.code
  obtain ⟨index, less, same⟩ := remapped
  by_cases below : index < count
  · exact ⟨index, below, same⟩
  · rw [show index = codePages size by omega, loadVaddr_stack] at same
    have slot : pdIndex vaddr = pdIndex (stackVaddr - 0x1000) := by
      rw [pdIndex_eq, pdIndex_eq, same]
    have empty := settled.stack_empty (by omega)
    rw [walk, slot, settled.ready.represents.absent _ empty] at walked
    cases walked

theorem Grows.allocated {before after : PmmManager} (grows : Grows before after)
    (allocated : Allocated before page) : Allocated after page := by
  rw [Allocated, grows.totalPages]
  exact ⟨allocated.1, allocated.2.1, grows.used page allocated.2.2⟩

theorem Loading.ready_after (loading : Loading start flat size frames count paging) :
    Ready paging (loadedFlat flat size frames count) := by
  refine ⟨loading.placed.represents, loading.balanced, fun page low => ?_⟩
  rw [loading.placed.grows.totalPages] at low
  exact loading.placed.grows.used page (loading.ready.reserved page low)

theorem StackLost.ready (stack : StackLost paging after frame) (ready : Ready paging flat) :
    Ready after flat := by
  rw [stack.same]
  exact ready.take stack.inside stack.clear

theorem Loaded.ready (loaded : Loaded start flat size after) : ∃ next, Ready after next := by
  cases loaded with
  | mapped frames loading => exact ⟨_, loading.ready_after⟩
  | lost frames middle frame loading stack => exact ⟨_, stack.ready loading.ready_after⟩

/-- A frame that lost its last mapping has no owner any more. -/
theorem Settled.spares (settled : Settled start flat size frames count after)
    (owned : NoLeak after) : Spares start size := by
  intro vaddr mapping walked remapped allocated
  cases owned mapping.frame (Grows.allocated settled.placed.grows allocated) with
  | inr table => exact .inl ((settled.placed.holdsTable allocated.2.2).mp table)
  | inl reached =>
      obtain ⟨other, kept, otherWalked, same⟩ := reached
      cases settled.walk_cases other with
      | inl mapped =>
          obtain ⟨index, less, _, result⟩ := mapped
          have clear := (settled.placed.fresh index less).2.1
          rw [result, Option.some.injEq] at otherWalked
          rw [← otherWalked] at same
          rw [show frames index = mapping.frame from same, allocated.2.2] at clear
          cases clear
      | inr untouched =>
          have before := untouched.2 ▸ otherWalked
          refine .inr ⟨other, kept, before, same, fun again => ?_⟩
          obtain ⟨index, less, here⟩ := settled.covers before again
          exact untouched.1 index less here

/-- The frames that were owned before are owned still. -/
theorem Settled.owned_before (settled : Settled start flat size frames count after)
    (owned : NoLeak start) (spares : Spares start size) (allocated : Allocated start.pmm page) :
    Reached after page ∨ HoldsTable (directory after) page := by
  have stack := settled.stack
  have still : ∀ vaddr mapping, walk start vaddr = some mapping →
      ¬ Remapped size (pageNumber vaddr) → walk after vaddr = some mapping := by
    intro vaddr mapping walked outside
    cases settled.walk_cases vaddr with
    | inl mapped =>
        obtain ⟨index, less, same, _⟩ := mapped
        exact absurd ⟨index, by omega, same⟩ outside
    | inr untouched => exact untouched.2.trans walked
  cases owned page allocated with
  | inr table => exact .inr ((settled.placed.holdsTable allocated.2.2).mpr table)
  | inl reached =>
      obtain ⟨vaddr, mapping, walked, same⟩ := reached
      subst same
      by_cases remapped : Remapped size (pageNumber vaddr)
      · cases spares vaddr mapping walked remapped allocated with
        | inl table => exact .inr ((settled.placed.holdsTable allocated.2.2).mpr table)
        | inr elsewhere =>
            obtain ⟨other, kept, otherWalked, same, outside⟩ := elsewhere
            exact .inl ⟨other, kept, still other kept otherWalked outside, same⟩
      · exact .inl ⟨vaddr, mapping, still vaddr mapping walked remapped, rfl⟩

/-- Every frame that a load takes gets an owner, where all its pages are apart
and mapped. -/
theorem Loading.noLeak (loading : Loading start flat size frames (codePages size + 1) paging)
    (settled : Settled start flat size frames (codePages size + 1) paging) (owned : NoLeak start)
    (keeps : KeepsFrames start size) : NoLeak paging := by
  intro page allocated
  obtain ⟨high, inside, marked⟩ := allocated
  rw [loading.placed.grows.totalPages] at high inside
  obtain old | ⟨index, less, same⟩ | table := loading.owned page marked
  · exact settled.owned_before owned keeps.spares ⟨high, inside, old⟩
  · rw [← same]
    exact .inl ⟨_, _, settled.walk_mapped less rfl fun code _ => keeps.apart index code, rfl⟩
  · exact .inr table

theorem Loaded.noLeak (loaded : Loaded start flat size after) (owned : NoLeak start)
    (keeps : KeepsFrames start size) : NoLeak after := by
  cases loaded with
  | mapped frames loading => exact loading.noLeak loading.settled owned keeps
  | lost frames middle frame loading stack => exact absurd keeps.backed (loading.unbacked stack)

theorem Loaded.spares (loaded : Loaded start flat size after) (owned : NoLeak after) :
    Spares start size := by
  obtain ⟨frames, count, settled⟩ := loaded.settled
  exact settled.spares owned

variable {state next : PageManager × Pcb} {exec : Ramdisk × List UInt8} {entry : RamdiskEntry}

theorem execStep_loads (taken : execStep state exec = some next) :
    ∃ entry, search exec.1 exec.2 = some entry ∧
      ramdiskLoad exec.1 exec.2 state.1 = some (.done next.1) := by
  obtain ⟨ended, loads⟩ := ramdiskLoad_ends exec.1 exec.2 state.1
  rw [execStep, sysExecve, loads] at taken
  cases ended with
  | fault => simp at taken
  | failed stopped => simp at taken
  | done loaded =>
      cases taken
      obtain ⟨entry, _, found, _⟩ := loadImage_eq_done.mp loads
      exact ⟨entry, found, loads⟩

theorem execStep_loaded (ready : Ready state.1 flat) (found : search exec.1 exec.2 = some entry)
    (reached : TablesReached state.1 entry.size) (taken : execStep state exec = some next) :
    Loaded state.1 flat entry.size next.1 := by
  obtain ⟨_, _, loads⟩ := execStep_loads taken
  exact (ramdiskLoad_loaded ready found reached loads).2.2

/-- The invariant of the runs. -/
def Owned (state : PageManager × Pcb) : Prop := (∃ flat, Ready state.1 flat) ∧ NoLeak state.1

theorem Owned.step (owned : Owned state) (keeps : Keeps state exec)
    (taken : execStep state exec = some next) : Owned next := by
  obtain ⟨⟨flat, ready⟩, noLeak⟩ := owned
  obtain ⟨entry, found, _⟩ := execStep_loads taken
  have loaded := execStep_loaded ready found (keeps entry found).reached taken
  exact ⟨loaded.ready, loaded.noLeak noLeak (keeps entry found)⟩

/-- A second load of an image always takes the last mapping of the first code
page of the first load. -/
theorem Loaded.not_spared (loaded : Loaded start flat size after) (nonempty : 0 < size)
    (inUse : ∀ vaddr mapping, walk start vaddr = some mapping →
      start.pmm.bitmap.test mapping.frame = true) : ¬ Spares after size := by
  intro spares
  obtain ⟨frames, count, settled⟩ := loaded.settled
  have first : 0 < codePages size := lt_codePages.mpr (by omega)
  have below : 0 < count := Nat.lt_of_lt_of_le first settled.code
  have stack := settled.stack
  obtain ⟨inside, clear, marked⟩ := settled.placed.fresh 0 below
  have walked : walk after (loadVaddr size 0) = some ⟨frames 0, 1, 1⟩ := by
    refine settled.walk_mapped below rfl fun _ _ => ?_
    rw [pageNumber_code first]
    decide
  have allocated : Allocated after.pmm (frames 0) := by
    refine ⟨?_, settled.placed.grows.totalPages ▸ inside, marked⟩
    rw [settled.placed.grows.totalPages]
    by_contra low
    rw [settled.ready.reserved _ (by omega)] at clear
    cases clear
  cases spares _ _ walked ⟨0, by omega, rfl⟩ allocated with
  | inl table =>
      obtain ⟨slot, _, _, address⟩ := table
      exact settled.placed.untabled 0 below slot address
  | inr elsewhere =>
      obtain ⟨other, kept, otherWalked, same, outside⟩ := elsewhere
      cases settled.walk_cases other with
      | inl mapped =>
          obtain ⟨index, less, here, _⟩ := mapped
          exact outside ⟨index, by omega, here⟩
      | inr untouched =>
          have used := inUse other kept (untouched.2 ▸ otherWalked)
          rw [same, clear] at used
          cases used

theorem oneByte_copied (ready : Ready paging flat) (initialized : paging.pmm.initialized = true)
    (enough : 1 < paging.pmm.freePages) {image : Mapping} (readable : flat 256 = some image) :
    ∃ filled, loadPage directMap paging 0x100000 1 (0 * 4096) = .done filled := by
  obtain ⟨page, inside, clear, result, notNull⟩ := frame_available ready initialized (by omega)
  have left := (ready.balanced.take inside clear).2
  have another : (allocFrame (take paging.pmm page)).2 ≠ 0 := by
    have taken := ready.take inside clear
    obtain ⟨_, _, _, again, notNull⟩ := @frame_available { paging with pmm := take paging.pmm page }
      flat taken (by simpa only [take_initialized] using initialized) (by simp only; omega)
    rw [again]
    exact notNull
  obtain ⟨table, mapped⟩ := frame_mapped ready.represents inside clear userBase (.inr another)
  have source : ∃ source, translate (Direct.mapPage { paging with pmm := take paging.pmm page } userBase
      (page * 4096) userFlags) (u32 0x100000) = some source := by
    rw [Exec.translate_eq mapped.represents, Function.update_of_ne (by decide)]
    rw [show pageNumber (u32 0x100000) = 256 by decide, readable]
    exact ⟨_, rfl⟩
  have target : ∃ target, translate (Direct.mapPage { paging with pmm := take paging.pmm page } userBase
      (page * 4096) userFlags) (u32 userBase) = some target := by
    rw [Exec.translate_eq mapped.represents, show pageNumber (u32 userBase) = pageNumber userBase by decide,
      Function.update_self]
    exact ⟨_, rfl⟩
  obtain ⟨source, readable⟩ := source
  obtain ⟨target, writable⟩ := target
  exact ⟨_, (loadPage_eq_done result notNull).mpr (memcpy_one readable writable)⟩

/-- Where the image is readable and the tables are reached, three free frames are
enough for its code page, its table and its stack. -/
theorem oneByte_loads (ready : Ready paging flat) (initialized : paging.pmm.initialized = true)
    (enough : 2 < paging.pmm.freePages) {image : Mapping} (readable : flat 256 = some image)
    (reached : TablesReached paging 1) :
    ∃ after, ramdiskLoad oneByteDisk [115, 104] paging = some (.done after) := by
  obtain ⟨filled, body⟩ := oneByte_copied ready initialized (by omega) readable
  have initial : Loading paging flat 1 (fun _ => 0) 0 paging := loading_start ready
  obtain ⟨frame, table, _, page, _⟩ := initial.next_page (by decide) (by decide) body
  have loading := initial.step page
  have few : (missingSlots paging 1 (0 + 1)).card ≤ 0 + 1 := card_missingSlots_le
  have left := loading.left
  obtain ⟨stack, _, _, result, notNull⟩ := frame_available loading.ready_after
    (loading.initialized.trans initialized) (by omega)
  have some_page := ready.balanced.freePages_le
  have pages : loadPages directMap (paging.pmm.totalPages + 1) paging 0x100000 1 0 =
      some (.done filled) := by
    rw [show paging.pmm.totalPages + 1 = paging.pmm.totalPages - 1 + 2 by omega]
    exact loadPages_one Nat.zero_lt_one (by decide) body
  refine ⟨Direct.mapPage { filled with pmm := take filled.pmm stack } (stackVaddr - 0x1000)
    (stack * 4096) userFlags, ?_⟩
  have direct : ramdiskLoad oneByteDisk [115, 104] paging =
      loadImage directMap oneByteDisk [115, 104] paging :=
    ramdiskLoad_direct ready.represents (show _ = some ⟨some [115, 104], 0x100000, 1⟩ from rfl) (by decide) reached
  rw [direct]
  exact loadImage_eq_done.mpr ⟨_, filled, rfl, by decide, pages, loadStack_direct result notNull⟩

theorem execStep_of_loads (loads : ramdiskLoad exec.1 exec.2 state.1 = some (.done after)) :
    ∃ next, execStep state exec = some next ∧ next.1 = after := by
  refine ⟨(after, { state.2 with eip := userBase, esp := stackVaddr }), ?_, rfl⟩
  simp only [execStep, sysExecve, loads, Option.map_some, if_true]

/-- A load maps no page below four megabytes. -/
theorem Settled.identity (settled : Settled start flat size frames count after)
    (few : codePages size < 1047552) (identity : ∀ page < 1024, SelfMapped start (page * 4096)) :
    ∀ page < 1024, SelfMapped after (page * 4096) := by
  have stack := settled.stack
  intro page low
  obtain ⟨mapping, walked, itself⟩ := identity page low
  cases settled.walk_cases (page * 4096) with
  | inl mapped =>
      obtain ⟨index, less, same, _⟩ := mapped
      rw [← Nat.add_zero (page * 4096), pageNumber_of_page (by omega) (by decide)] at same
      by_cases code : index < codePages size
      · rw [pageNumber_code code] at same
        omega
      · rw [show index = codePages size by omega, pageNumber_stack] at same
        omega
  | inr untouched => exact ⟨mapping, untouched.2.trans walked, itself⟩

theorem Settled.table_kept (settled : Settled start flat size frames count after) {slot : Nat}
    (here : (directory start).tables slot ≠ 0) :
    (directory after).tables slot = (directory start).tables slot := by
  cases settled.placed.tables slot with
  | inl same => exact same.1
  | inr added => exact absurd added.empty here

/-- A load whose tables existed before finds them again. -/
theorem Settled.reached_again (settled : Settled start flat size frames count after)
    (few : codePages size < 1047552) (identity : ∀ page < 1024, SelfMapped start (page * 4096))
    (tables : ∀ index ≤ codePages size, (directory start).tables (loadSlot size index) ≠ 0 ∧
      ∃ page < 1024, (directory start).tables (loadSlot size index) = page * 4096) :
    TablesReached after size := by
  refine tablesReached_existing few (settled.identity few identity) fun index below => ?_
  rw [settled.table_kept (tables index below).1]
  exact tables index below

/-- After one exec there is still room for another one. -/
theorem Loaded.again (loaded : Loaded start flat 1 after) (keeps : KeepsFrames start 1)
    (initialized : start.pmm.initialized = true) (enough : 6 < start.pmm.freePages)
    {image : Mapping} (readable : flat 256 = some image) :
    ∃ next, Ready after next ∧ after.pmm.initialized = true ∧ 2 < after.pmm.freePages ∧
      ∃ image, next 256 = some image := by
  cases loaded with
  | lost frames middle frame loading stack => exact absurd keeps.backed (loading.unbacked stack)
  | mapped frames loading =>
      have left := loading.left
      have few : (missingSlots start 1 (codePages 1 + 1)).card ≤ codePages 1 + 1 :=
        card_missingSlots_le
      have pages : codePages 1 = 1 := rfl
      refine ⟨_, loading.ready_after, loading.initialized.trans initialized, by omega, ?_⟩
      cases loadedFlat_cases flat 1 frames (codePages 1 + 1) 256 with
      | inl mapped =>
          obtain ⟨index, _, _, _, result⟩ := mapped
          exact ⟨_, result⟩
      | inr untouched => exact ⟨image, untouched.2.trans readable⟩

/-- The first four megabytes are mapped to themselves, and the pages of a one-byte
image and of the stack are not mapped. -/
structure LowFlat (flat : FlatMap) : Prop where
  identity : ∀ page < 1024, flat page = some ⟨page, 1, 0⟩
  code : flat 1024 = none
  stack : flat 0xBFBFF = none

theorem identityFlat_low : LowFlat identityFlat :=
  ⟨fun _ low => if_pos low, if_neg (by decide), if_neg (by decide)⟩

theorem LowFlat.selfMapped (low : LowFlat flat) (represents : Represents paging flat) :
    ∀ page < 1024, SelfMapped paging (page * 4096) :=
  fun page below => represents.selfMapped_page (by omega) (low.identity page below) rfl

/-- Frames below four megabytes are reached through the identity mapping. -/
theorem LowFlat.noLeak (low : LowFlat flat) (represents : Represents paging flat)
    (sequential : Sequential paging.pmm count) (few : count ≤ 1024) : NoLeak paging := by
  intro page allocated
  obtain ⟨_, inside, marked⟩ := allocated
  rw [sequential.test page inside, decide_eq_true_eq] at marked
  obtain ⟨mapping, walked, itself⟩ := low.selfMapped represents page (by omega)
  exact .inl ⟨page * 4096, mapping, walked, by omega⟩

theorem LowFlat.keeps (low : LowFlat flat) (represents : Represents paging flat)
    (reached : TablesReached paging 1) (backed : StackBacked paging 1) : KeepsFrames paging 1 := by
  refine ⟨reached, ?_, ?_, backed⟩
  · intro vaddr mapping walked remapped
    obtain ⟨index, less, same⟩ := remapped
    rw [represents.walk_eq, ← same] at walked
    by_cases code : index < codePages 1
    · have only : index = 0 := Nat.lt_one_iff.mp code
      rw [only, pageNumber_code (by decide), show (1024 + 0) % 1048576 = 1024 by decide,
        low.code] at walked
      cases walked
    · have last : index = codePages 1 := Nat.le_antisymm (Nat.lt_succ_iff.mp less) (not_lt.mp code)
      rw [last, pageNumber_stack, low.stack] at walked
      cases walked
  · intro index less
    rw [pageNumber_code less, Nat.lt_one_iff.mp less]
    decide

theorem stackBacked_free (enough : 3 < paging.pmm.freePages) : StackBacked paging 1 := by
  have few : (missingSlots paging 1 (codePages 1)).card ≤ codePages 1 := card_missingSlots_le
  have pages : codePages 1 = 1 := rfl
  exact .inr (.inr (by omega))

/-- After boot with eight megabytes, and while other clients took frames below
four megabytes. -/
theorem boot_allocs {number : Nat} (room : 514 + number ≤ 1024) :
    ∃ paging, run Paging.step (boot (fun _ => 0) 8192 (fun _ => 0)
        (fun _ => ⟨fun _ => 0, fun _ => 0⟩) 4096) (List.replicate number .alloc) = some paging ∧
      Represents paging identityFlat ∧ Sequential paging.pmm (514 + number) ∧
      paging.pmm.totalPages = 2048 ∧
      (directory paging).tables = Function.update (fun _ => 0) 0 (513 * 4096) := by
  obtain ⟨booted, sequential, total, tables⟩ := @boot_eight_megabytes (fun _ => 0) 4096
    (fun _ => 0) (fun _ => ⟨fun _ => 0, fun _ => 0⟩)
  obtain ⟨pmm, reached, later, same⟩ := run_allocs sequential (show 514 + number ≤ _ by omega)
  have represents := booted.run_trace along_allocs reached
  rw [flatTrace_allocs] at represents
  refine ⟨_, reached, represents, later, same.trans total, ?_⟩
  rw [directory_pmm, tables]

/-- Such a state is ready for a load. -/
theorem boot_allocs_ready {number : Nat}
    (reached : run Paging.step (boot (fun _ => 0) 8192 (fun _ => 0)
      (fun _ => ⟨fun _ => 0, fun _ => 0⟩) 4096) (List.replicate number .alloc) = some paging) :
    ∃ flat, Ready paging flat :=
  boot_ready room_eight_megabytes along_allocs reached

theorem oneByte_reached (represents : Represents paging identityFlat)
    (sequential : Sequential paging.pmm count) (room : count + 4 ≤ 1024)
    (tables : (directory paging).tables = Function.update (fun _ => 0) 0 (513 * 4096)) :
    TablesReached paging 1 := by
  have pages : codePages 1 = 1 := rfl
  refine tablesReached_sequential (identityFlat_low.selfMapped represents) sequential
    (fun slot => ?_) (by omega)
  rw [tables]
  by_cases first : slot = 0
  · exact ⟨513, by decide, by rw [first, Function.update_self]⟩
  · exact ⟨0, by decide, by rw [Function.update_of_ne first]⟩

/-- After boot with eight megabytes the one-byte image is loaded. -/
theorem boot_loads : ∃ start after, run Paging.step (boot (fun _ => 0) 8192 (fun _ => 0)
      (fun _ => ⟨fun _ => 0, fun _ => 0⟩) 4096) (List.replicate 0 .alloc) = some start ∧
    Ready start identityFlat ∧ Sequential start.pmm 514 ∧ start.pmm.totalPages = 2048 ∧
    (directory start).tables = Function.update (fun _ => 0) 0 (513 * 4096) ∧
    TablesReached start 1 ∧ ramdiskLoad oneByteDisk [115, 104] start = some (.done after) := by
  obtain ⟨start, reached, represents, sequential, total, tables⟩ := @boot_allocs 0 (by omega)
  have ready : Ready start identityFlat :=
    ready_sequential represents sequential (by rw [total]; decide)
  have free := sequential.freePages
  have found := oneByte_reached represents sequential (by decide) tables
  obtain ⟨after, loads⟩ := oneByte_loads ready sequential.initialized (by omega) rfl found
  exact ⟨start, after, reached, ready, sequential, total, tables, found, loads⟩

/-- While all mapped frames are low, they are marked. -/
theorem walked_marked (represents : Represents paging flat) (sequential : Sequential paging.pmm 1024)
    (room : 1024 ≤ paging.pmm.totalPages)
    (inside : ∀ page mapping, flat page = some mapping → mapping.frame < 1024) (vaddr : Nat)
    (mapping : Mapping) (walked : walk paging vaddr = some mapping) :
    paging.pmm.bitmap.test mapping.frame = true := by
  rw [represents.walk_eq] at walked
  have below := inside _ _ walked
  rw [sequential.test _ (by omega)]
  simpa using below

theorem identityFlat_inside {mapping : Mapping} (found : identityFlat page = some mapping) :
    mapping.frame < 1024 := by
  rw [identityFlat] at found
  by_cases inside : page < 1024
  · rw [if_pos inside, Option.some.injEq] at found
    rw [← found]
    exact inside
  · rw [if_neg inside] at found
    cases found

theorem update_inside {fresh : Mapping}
    (inside : ∀ page mapping, flat page = some mapping → mapping.frame < 1024)
    (low : fresh.frame < 1024) (other : Nat) (mapping : Mapping)
    (found : Function.update flat page (some fresh) other = some mapping) : mapping.frame < 1024 := by
  by_cases same : other = page
  · rw [same, Function.update_self, Option.some.injEq] at found
    exact found ▸ low
  · rw [Function.update_of_ne same] at found
    exact inside other mapping found

/-- A table in the next frame is reached, below four megabytes. -/
theorem new_table_reached {vaddr : Nat} (represents : Represents paging flat)
    (identity : ∀ page < 1024, flat page = some ⟨page, 1, 0⟩) (sequential : Sequential paging.pmm count)
    (room : count < paging.pmm.totalPages) (below : count < 1024)
    (empty : (directory paging).tables (pdIndex vaddr) = 0) (paddr flags : Nat) :
    Paging.step paging (.map vaddr paddr flags) = some (Direct.mapPage paging vaddr paddr flags) := by
  refine represents.mapPage_direct paddr flags fun _ => ?_
  rw [tableFor_empty empty, sequential.allocFrame_eq room]
  exact represents.selfMapped_page (by omega) (identity count below) rfl

/-- Pages next to the stack page and to the first code page have their tables,
and all frames below four megabytes are taken. -/
theorem boot_tables : ∃ start flat, run Paging.step (boot (fun _ => 0) 8192 (fun _ => 0)
      (fun _ => ⟨fun _ => 0, fun _ => 0⟩) 4096)
      (.map 0xBFBFE000 0x100000 7 :: .map 0x401000 0x100000 7 :: List.replicate 508 .alloc) =
        some start ∧ Represents start flat ∧ Sequential start.pmm 1024 ∧ start.pmm.totalPages = 2048 ∧
    (directory start).tables 766 = 514 * 4096 ∧ (directory start).tables 1 = 515 * 4096 ∧
    LowFlat flat ∧ ∀ page mapping, flat page = some mapping → mapping.frame < 1024 := by
  obtain ⟨represents, sequential, total, tables⟩ := @boot_eight_megabytes (fun _ => 0) 4096
    (fun _ => 0) (fun _ => ⟨fun _ => 0, fun _ => 0⟩)
  generalize boot (fun _ => 0) 8192 (fun _ => 0) (fun _ => ⟨fun _ => 0, fun _ => 0⟩) 4096 = booted
    at sequential total tables represents ⊢
  have stackSlot : pdIndex 0xBFBFE000 = 766 := by decide
  have codeSlot : pdIndex 0x401000 = 1 := by decide
  have noStack : (directory booted).tables (pdIndex 0xBFBFE000) = 0 := by
    rw [tables, stackSlot]
    rfl
  have identity : ∀ page < 1024, identityFlat page = some ⟨page, 1, 0⟩ := fun _ low => if_pos low
  have stackTaken := new_table_reached represents identity sequential (by omega) (by decide) noStack
    0x100000 7
  obtain ⟨stackMapped, stackSequential, stackTotal, stackTables⟩ :=
    represents.mapPage_sequential 0x100000 7 noStack sequential (by omega)
  rw [tables, stackSlot] at stackTables
  generalize Direct.mapPage booted 0xBFBFE000 0x100000 7 = middle
    at stackTaken stackMapped stackSequential stackTotal stackTables
  have noCode : (directory middle).tables (pdIndex 0x401000) = 0 := by
    rw [stackTables, codeSlot]
    rfl
  have still : ∀ page < 1024, flatStep identityFlat (.map 0xBFBFE000 0x100000 7) page =
      some ⟨page, 1, 0⟩ := by
    intro page low
    rw [flatStep, Function.update_of_ne (by rw [show pageNumber 0xBFBFE000 = 0xBFBFE by decide]; omega)]
    exact identity page low
  have codeTaken := new_table_reached stackMapped still stackSequential (by omega) (by decide) noCode
    0x100000 7
  obtain ⟨mapped, codeSequential, codeTotal, codeTables⟩ :=
    stackMapped.mapPage_sequential 0x100000 7 noCode stackSequential (by omega)
  rw [stackTables, codeSlot] at codeTables
  generalize Direct.mapPage middle 0x401000 0x100000 7 = last
    at codeTaken mapped codeSequential codeTotal codeTables
  obtain ⟨pmm, reached, later, same⟩ := run_allocs codeSequential (show 516 + 508 ≤ _ by omega)
  have represented := mapped.run_trace along_allocs reached
  rw [flatTrace_allocs] at represented
  have whole : flatStep (flatStep identityFlat (.map 0xBFBFE000 0x100000 7))
      (.map 0x401000 0x100000 7) = Function.update (Function.update identityFlat 0xBFBFE
        (some ⟨256, 1, 1⟩)) 0x401 (some ⟨256, 1, 1⟩) := rfl
  rw [whole] at represented
  have path : run Paging.step booted
      (.map 0xBFBFE000 0x100000 7 :: .map 0x401000 0x100000 7 :: List.replicate 508 .alloc) =
        some { last with pmm } := by
    rw [run_cons stackTaken, run_cons codeTaken]
    exact reached
  refine ⟨_, _, path, represented, later, ?_, ?_, ?_, ⟨fun page low => ?_, ?_, ?_⟩, ?_⟩
  · simp only [same, codeTotal, stackTotal, total]
  · rw [directory_pmm, codeTables]
    rfl
  · rw [directory_pmm, codeTables]
    rfl
  · rw [Function.update_of_ne (by omega), Function.update_of_ne (by omega), identity page low]
  · rw [Function.update_of_ne (by decide), Function.update_of_ne (by decide)]
    rfl
  · rw [Function.update_of_ne (by decide), Function.update_of_ne (by decide)]
    rfl
  · exact update_inside (update_inside (fun _ _ => identityFlat_inside) (by decide)) (by decide)

/-- The tables of both pages of a load with one code page. -/
theorem tables_onePage (pages : codePages size = 1)
    (stackTable : (directory paging).tables 766 = 514 * 4096)
    (codeTable : (directory paging).tables 1 = 515 * 4096) :
    ∀ index ≤ codePages size, (directory paging).tables (loadSlot size index) ≠ 0 ∧
      ∃ page < 1024, (directory paging).tables (loadSlot size index) = page * 4096 := by
  intro index below
  by_cases stack : index = codePages size
  · rw [stack, loadSlot_stack, show pdIndex (stackVaddr - 0x1000) = 766 by decide, stackTable]
    exact ⟨by decide, 514, by decide, rfl⟩
  · have code : index < codePages size := by omega
    rw [loadSlot, loadVaddr_code code, show index = 0 by omega,
      show pdIndex (u32 (userBase + 0 * 4096)) = 1 by decide, codeTable]
    exact ⟨by decide, 515, by decide, rfl⟩

/-- After every run of successful execs that reach their tables, replace no last
mapping, keep the code below the stack page and find a table for it, every
allocated frame has an owner; and an exec that replaces a last mapping leaves a
frame without one. -/
theorem exec_owns_frames (start final : PageManager × Pcb) (execs : List (Ramdisk × List UInt8))
    (flat : FlatMap) (ready : Ready start.1 flat) (owned : NoLeak start.1)
    (keeps : Along execStep Keeps start execs) (reached : run execStep start execs = some final) :
    NoLeak final.1 ∧ ∀ exec next entry, search exec.1 exec.2 = some entry →
      TablesReached final.1 entry.size → execStep final exec = some next → NoLeak next.1 →
        Spares final.1 entry.size := by
  have kept : Owned final := run_invariant Owned keeps ⟨⟨flat, ready⟩, owned⟩
    (fun _ _ _ owned keeps taken => owned.step keeps taken) reached
  refine ⟨kept.2, fun exec next entry found tables taken noLeak => ?_⟩
  obtain ⟨last, readyLast⟩ := kept.1
  exact (execStep_loaded readyLast found tables taken).spares noLeak

theorem exec_owns_frames_oneByte :
    ∃ start final, run Paging.step (boot (fun _ => 0) 8192 (fun _ => 0)
        (fun _ => ⟨fun _ => 0, fun _ => 0⟩) 4096) (List.replicate 0 .alloc) = some start ∧
      run execStep (start, {}) [(oneByteDisk, [115, 104])] = some final ∧ NoLeak final.1 := by
  obtain ⟨start, reached, represents, sequential, total, tables⟩ := @boot_allocs 0 (by omega)
  obtain ⟨flat, ready⟩ := boot_allocs_ready reached
  have free := sequential.freePages
  have readable : flat 256 = identityFlat 256 := by
    have walked := @Represents.walk_eq start identityFlat 0x100000 represents
    rw [ready.represents.walk_eq] at walked
    exact walked
  have found := oneByte_reached represents sequential (by decide) tables
  have keeps := identityFlat_low.keeps represents found (stackBacked_free (by omega))
  obtain ⟨after, loads⟩ := oneByte_loads ready sequential.initialized (by omega) readable found
  obtain ⟨final, taken, _⟩ := @execStep_of_loads after (start, {}) (oneByteDisk, [115, 104]) loads
  have ran : run execStep (start, {}) [(oneByteDisk, [115, 104])] = some final := by
    rw [run, taken]
    rfl
  have kept : Along execStep Keeps (start, {}) [(oneByteDisk, [115, 104])] := by
    refine ⟨fun entry found => ?_, fun _ _ => trivial⟩
    cases found
    exact keeps
  exact ⟨start, final, reached, ran, (exec_owns_frames (start, {}) final _ flat ready
    (identityFlat_low.noLeak represents sequential (by omega)) kept ran).1⟩

/-- The same image again: the first frame of the first exec is lost. -/
theorem second_exec_leaks :
    ∃ start next final, run Paging.step (boot (fun _ => 0) 8192 (fun _ => 0)
        (fun _ => ⟨fun _ => 0, fun _ => 0⟩) 4096)
        (.map 0xBFBFE000 0x100000 7 :: .map 0x401000 0x100000 7 :: List.replicate 508 .alloc) =
          some start ∧
      NoLeak start ∧ execStep (start, {}) (oneByteDisk, [115, 104]) = some next ∧
      execStep next (oneByteDisk, [115, 104]) = some final ∧ ¬ NoLeak final.1 := by
  obtain ⟨start, flat, reached, represents, sequential, total, stackTable, codeTable, low, inUse⟩ :=
    boot_tables
  have free := sequential.freePages
  have ready : Ready start flat := ready_sequential represents sequential (by rw [total]; decide)
  have existing := tables_onePage (show codePages 1 = 1 by decide) stackTable codeTable
  have identity := low.selfMapped represents
  have found : TablesReached start 1 := tablesReached_existing (by decide) identity existing
  have keeps : KeepsFrames start 1 :=
    low.keeps represents found (stackBacked_free (by omega))
  have marked := walked_marked represents sequential (by omega) inUse
  obtain ⟨after, loads⟩ := oneByte_loads ready sequential.initialized (by omega)
    (low.identity 256 (by decide)) found
  obtain ⟨next, taken, _⟩ := @execStep_of_loads after (start, {}) (oneByteDisk, [115, 104]) loads
  have loaded : Loaded start flat 1 next.1 := execStep_loaded ready rfl found taken
  obtain ⟨last, readyNext, initialized, enough, image, readable⟩ :=
    loaded.again keeps sequential.initialized (by omega) (low.identity 256 (by decide))
  obtain ⟨frames, count, settled⟩ := loaded.settled
  have again := settled.reached_again (by decide) identity existing
  obtain ⟨rest, loadsAgain⟩ := oneByte_loads readyNext initialized enough readable again
  obtain ⟨final, takenAgain, _⟩ := @execStep_of_loads rest next (oneByteDisk, [115, 104]) loadsAgain
  refine ⟨start, next, final, reached, low.noLeak represents sequential (by omega), taken,
    takenAgain, fun noLeak => ?_⟩
  have loadedAgain : Loaded next.1 last 1 final.1 := execStep_loaded readyNext rfl again takenAgain
  exact loaded.not_spared Nat.zero_lt_one marked (loadedAgain.spares noLeak)

end

end Helios.Exec
