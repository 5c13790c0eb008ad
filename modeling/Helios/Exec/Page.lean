import Helios.Exec.Copy
import Helios.Exec.Failure

namespace Helios.Exec

open Helios.Data Helios.Pmm Helios.Paging

/-! One page of a successful `ramdisk_load`, where `map_page` stores in the frames
of the tables. -/

/-- `map_page` with its stores in the frames of the tables. -/
def directMap : MapPage := fun paging vaddr paddr flags =>
  some (Direct.mapPage paging vaddr paddr flags)

/-- The bytes that the loop copies to the code page at `off`. -/
def chunkSize (size off : Nat) : Nat := if sub32 size off > 0x1000 then 0x1000 else sub32 size off

/-- The frame holds a page table of the directory. -/
def HoldsTable (dir : Directory) (page : Nat) : Prop :=
  ∃ slot < 1024, dir.tables slot ≠ 0 ∧ dir.tables slot = page * 4096

/-- A frame is taken for a page, mapped to it, and filled. -/
structure PageLoaded (before after : PageManager) (flat : FlatMap) (vaddr bytes frame table : Nat) :
    Prop where
  inside : frame < before.pmm.totalPages
  clear : before.pmm.bitmap.test frame = false
  apart : table ≠ frame
  supply : Supply (take before.pmm frame) (directory before) after.pmm (directory after)
    (pdIndex vaddr) userFlags table
  represents : Represents after (Function.update flat (pageNumber vaddr) (some ⟨frame, 1, 1⟩))
  memory : ∀ address, address < table * 4096 ∨ table * 4096 + 4096 ≤ address →
    address < frame * 4096 ∨ frame * 4096 + bytes ≤ address →
      after.memory address = before.memory address

/-- The state in which a page of a load is filled: `map_page` has been called with
a new frame. -/
def mappedPage (paging : PageManager) (vaddr : Nat) : PageManager :=
  Direct.mapPage { paging with pmm := (allocFrame paging.pmm).1 } vaddr (allocFrame paging.pmm).2 userFlags

/-- The frame that `alloc_frame` gives for a page is mapped to it before the page
is filled. -/
structure MappedFirst (paging : PageManager) (vaddr frame : Nat) : Prop where
  allocated : (allocFrame paging.pmm).2 = frame * 4096
  mapped : walk (mappedPage paging vaddr) vaddr = some ⟨frame, 1, 1⟩

/-- The stack page stays unmapped: there is a frame for it, but none for its table. -/
structure StackLost (before after : PageManager) (frame : Nat) : Prop where
  initialized : before.pmm.initialized = true
  inside : frame < before.pmm.totalPages
  clear : before.pmm.bitmap.test frame = false
  empty : (directory before).tables (pdIndex (stackVaddr - 0x1000)) = 0
  exhausted : allocFrame (take before.pmm frame) = (take before.pmm frame, 0)
  same : after = { before with pmm := take before.pmm frame }

section

variable {paging after before : PageManager} {flat : FlatMap} {mapping : Mapping}
variable {code size off fuel vaddr frame table bytes page : Nat}

/-- `map_page` with the flags of a user page, after other frames were taken. -/
theorem userPage_mapped {pmm : PmmManager} (represents : Represents { paging with pmm } flat)
    (small : frame < 1048576) (vaddr : Nat)
    (supplied : (directory paging).tables (pdIndex vaddr) ≠ 0 ∨ (allocFrame pmm).2 ≠ 0) :
    Represents (Direct.mapPage { paging with pmm } vaddr (frame * 4096) userFlags)
        (Function.update flat (pageNumber vaddr) (some ⟨frame, 1, 1⟩)) ∧
      ∃ table, Supply pmm (directory paging)
          (Direct.mapPage { paging with pmm } vaddr (frame * 4096) userFlags).pmm
          (directory (Direct.mapPage { paging with pmm } vaddr (frame * 4096) userFlags)) (pdIndex vaddr)
          userFlags table ∧
        Memory.Confined (table * 4096) (table * 4096 + 4096) paging.memory
          (Direct.mapPage { paging with pmm } vaddr (frame * 4096) userFlags).memory := by
  have mapped := represents.mapPage_supplied vaddr (frame * 4096) userFlags supplied
  have target : u32 (frame * 4096) >>> 12 = frame := by
    rw [u32_of_lt (by omega), Nat.shiftRight_eq_div_pow]
    omega
  have itsRw : flagBit userFlags pageRw = 1 := by decide
  have itsUser : flagBit userFlags pageUser = 1 := by decide
  rw [flatStep, target, itsRw, itsUser] at mapped
  exact ⟨mapped, represents.mapPage_effect vaddr (frame * 4096) userFlags supplied⟩

theorem frame_mapped (represents : Represents paging flat) (inside : frame < paging.pmm.totalPages)
    (clear : paging.pmm.bitmap.test frame = false) (vaddr : Nat)
    (supplied : (directory paging).tables (pdIndex vaddr) ≠ 0 ∨
      (allocFrame (take paging.pmm frame)).2 ≠ 0) :
    ∃ table, PageLoaded paging
      (Direct.mapPage { paging with pmm := take paging.pmm frame } vaddr (frame * 4096) userFlags)
      flat vaddr 0 frame table := by
  have bounded := represents.bounded
  obtain ⟨mapped, table, supply, confined⟩ := @userPage_mapped paging flat frame
    (take paging.pmm frame) (represents.grow take_grows) (by omega) vaddr supplied
  refine ⟨table, inside, clear, ?_, supply, mapped, fun address outside _ => confined address outside⟩
  intro same
  subst same
  cases supply with
  | existing here notNull pmm same =>
      obtain ⟨used, address, _, marked⟩ := represents.tables _ (here ▸ notNull)
      rw [show table = used by omega, marked] at clear
      cases clear
  | created empty notNull inside unused pmm word itsUser added =>
      simp only [take_bitmap, Bitmap.test_set, decide_true, Bool.true_or] at unused
      cases unused

theorem PageLoaded.target (loaded : PageLoaded paging after flat vaddr bytes frame table)
    (represents : Represents paging flat) (aligned : vaddr % 4096 = 0) (small : vaddr < 4294967296) :
    Target after (Function.update flat (pageNumber vaddr) (some ⟨frame, 1, 1⟩)) vaddr
      ⟨frame, 1, 1⟩ := by
  refine ⟨loaded.represents, Function.update_self .., aligned, small, ?_⟩
  intro offset inside within
  have different := loaded.apart
  have whole : (frame * 4096 + offset) / 4096 = frame := by omega
  cases loaded.supply.inTable.mp within with
  | inl old =>
      have clear := loaded.clear
      rw [← whole] at clear
      exact represents.clear_apart clear old
  | inr new =>
      simp only at new
      omega

theorem PageLoaded.fill (loaded : PageLoaded paging after flat vaddr 0 frame table) {memory : Memory}
    (target : Target { after with memory }
      (Function.update flat (pageNumber vaddr) (some ⟨frame, 1, 1⟩)) vaddr ⟨frame, 1, 1⟩)
    (confined : Memory.Confined (frame * 4096) (frame * 4096 + bytes) after.memory memory) :
    PageLoaded paging { after with memory } flat vaddr bytes frame table := by
  refine ⟨loaded.inside, loaded.clear, loaded.apart, loaded.supply,
    target.represents, fun address outside unfilled => ?_⟩
  have mapped := loaded.memory address outside
  rw [Nat.add_zero] at mapped
  exact (confined address unfilled).trans (mapped (Nat.lt_or_ge address (frame * 4096)))

theorem loadStack_direct {pmm : PmmManager} (allocated : allocFrame paging.pmm = (pmm, page))
    (notNull : page ≠ 0) : loadStack directMap paging =
      .done (Direct.mapPage { paging with pmm } (stackVaddr - 0x1000) page userFlags) := by
  rw [loadStack, allocated]
  simp only [notNull, if_false]
  rw [directMap]

theorem chunkSize_eq (more : off < size) (small : size < 4294967296) :
    chunkSize size off = min 4096 (size - off) := by
  rw [chunkSize, sub32_of_le small more.le]
  split <;> omega

theorem chunkSize_le : chunkSize size off ≤ 4096 := by
  unfold chunkSize
  split <;> omega

theorem chunkSize_pos (more : off < size) (small : size < 4294967296) : 0 < chunkSize size off := by
  rw [chunkSize_eq more small]
  omega

theorem u32_aligned (aligned : off % 4096 = 0) : u32 (userBase + off) % 4096 = 0 := by
  rw [u32, userBase]
  omega

theorem loadPage_eq_done {pmm : PmmManager} (allocated : allocFrame paging.pmm = (pmm, page))
    (notNull : page ≠ 0) : loadPage directMap paging code size off = .done after ↔
      memcpy (Direct.mapPage { paging with pmm } (u32 (userBase + off)) page userFlags)
        (u32 (userBase + off)) (u32 (code + off)) (chunkSize size off) = some after := by
  rw [loadPage, allocated, chunkSize]
  simp only [notNull, if_false]
  rw [directMap, Option.bind_some]
  generalize memcpy _ _ _ _ = finished
  cases finished with
  | none => simp
  | some filled => simp

/-- The three steps for a code page; a page that the copy reaches was mapped. -/
theorem loadPage_steps (represents : Represents paging flat) (more : off < size)
    (small : size < 4294967296) (loaded : loadPage directMap paging code size off = .done after) :
    ∃ pmm frame table, allocFrame paging.pmm = (pmm, frame * 4096) ∧ frame * 4096 ≠ 0 ∧
      Grows paging.pmm pmm ∧
      PageLoaded paging (Direct.mapPage { paging with pmm } (u32 (userBase + off)) (frame * 4096) userFlags)
        flat (u32 (userBase + off)) 0 frame table ∧
      memcpy (Direct.mapPage { paging with pmm } (u32 (userBase + off)) (frame * 4096) userFlags)
        (u32 (userBase + off)) (u32 (code + off)) (chunkSize size off) = some after := by
  cases allocFrame_fresh represents.bounded represents.nullUsed with
  | inl failed => simp [loadPage_exhausted failed] at loaded
  | inr taken =>
      obtain ⟨frame, inside, clear, _, result, notNull⟩ := taken
      have copied := (loadPage_eq_done result notNull).mp loaded
      by_cases supplied : (directory paging).tables (pdIndex (u32 (userBase + off))) ≠ 0 ∨
          (allocFrame (take paging.pmm frame)).2 ≠ 0
      · obtain ⟨table, mapped⟩ := frame_mapped represents inside clear _ supplied
        exact ⟨_, frame, table, result, notNull, take_grows, mapped, copied⟩
      · rw [not_or, not_not, not_not] at supplied
        obtain ⟨empty, null⟩ := supplied
        rw [mapPage_exhausted empty (allocFrame_null (represents.grow take_grows) null)] at copied
        obtain ⟨target, writable⟩ := memcpy_mapped (chunkSize_pos more small) copied
        rw [u32_of_lt (u32_lt _), Paging.translate, walk, directory_pmm, represents.absent _ empty] at writable
        cases writable

theorem mappedFirst {pmm : PmmManager} (allocated : allocFrame paging.pmm = (pmm, frame * 4096))
    (loaded : PageLoaded paging (Direct.mapPage { paging with pmm } vaddr (frame * 4096) userFlags) flat
      vaddr bytes frame table) : MappedFirst paging vaddr frame := by
  have state : mappedPage paging vaddr =
      Direct.mapPage { paging with pmm } vaddr (frame * 4096) userFlags := by
    rw [mappedPage, allocated]
  refine ⟨congrArg Prod.snd allocated, ?_⟩
  rw [state, loaded.represents.walk_eq, Function.update_self]

theorem loadPage_done (represents : Represents paging flat) (aligned : off % 4096 = 0)
    (more : off < size) (small : size < 4294967296) (loaded : loadPage directMap paging code size off = .done after) :
    ∃ frame table, MappedFirst paging (u32 (userBase + off)) frame ∧
      PageLoaded paging after flat (u32 (userBase + off)) (chunkSize size off) frame table := by
  obtain ⟨pmm, frame, table, allocated, _, _, mapped, copied⟩ :=
    loadPage_steps represents more small loaded
  obtain ⟨memory, same, target, confined⟩ :=
    (mapped.target represents (u32_aligned aligned) (u32_lt _)).memcpy chunkSize_le copied
  rw [same]
  exact ⟨frame, table, mappedFirst allocated mapped, mapped.fill target confined⟩

theorem loadStack_done (represents : Represents paging flat) (loaded : loadStack directMap paging = .done after) :
    (∃ frame table, MappedFirst paging (stackVaddr - 0x1000) frame ∧
        PageLoaded paging after flat (stackVaddr - 0x1000) 0 frame table) ∨
      ∃ frame, StackLost paging after frame := by
  cases allocFrame_fresh represents.bounded represents.nullUsed with
  | inl failed => simp [loadStack_exhausted failed] at loaded
  | inr taken =>
      obtain ⟨frame, inside, clear, _, result, notNull⟩ := taken
      rw [loadStack_direct result notNull, Outcome.done.injEq] at loaded
      subst loaded
      by_cases supplied : (directory paging).tables (pdIndex (stackVaddr - 0x1000)) ≠ 0 ∨
          (allocFrame (take paging.pmm frame)).2 ≠ 0
      · obtain ⟨table, mapped⟩ := frame_mapped represents inside clear _ supplied
        exact .inl ⟨frame, table, mappedFirst result mapped, mapped⟩
      · have grown : Represents { paging with pmm := take paging.pmm frame } flat :=
          represents.grow take_grows
        rw [not_or, not_not, not_not] at supplied
        obtain ⟨empty, null⟩ := supplied
        have exhausted := allocFrame_null grown null
        refine .inr ⟨frame, ?_, inside, clear, empty, exhausted, ?_⟩
        · by_contra raw
          rw [allocFrame, if_pos (by simpa using raw)] at result
          exact notNull (congrArg Prod.snd result).symm
        exact mapPage_exhausted empty exhausted

theorem PageLoaded.grows (loaded : PageLoaded before after flat vaddr bytes frame table) :
    Grows before.pmm after.pmm :=
  take_grows.trans loaded.supply.grows

theorem PageLoaded.marked (loaded : PageLoaded before after flat vaddr bytes frame table) :
    after.pmm.bitmap.test frame = true := by
  apply loaded.supply.grows.used
  simp

theorem PageLoaded.table_used (loaded : PageLoaded before after flat vaddr bytes frame table) :
    after.pmm.bitmap.test table = true := by
  obtain ⟨here, notNull⟩ := loaded.supply.here
  obtain ⟨page, address, _, marked⟩ := loaded.represents.tables _ (here ▸ notNull)
  rw [here] at address
  rw [show table = page by omega]
  exact marked

theorem PageLoaded.used (loaded : PageLoaded before after flat vaddr bytes frame table)
    (marked : after.pmm.bitmap.test page = true) : before.pmm.bitmap.test page = true ∨
      page = frame ∨ HoldsTable (directory after) page := by
  cases loaded.supply.used marked with
  | inl earlier =>
      rw [take_bitmap, Bitmap.test_set, Bool.or_eq_true, decide_eq_true_eq] at earlier
      cases earlier with
      | inl itsFrame => exact .inr (.inl itsFrame)
      | inr old => exact .inl old
  | inr itsTable =>
      obtain ⟨here, notNull⟩ := loaded.supply.here
      subst itsTable
      exact .inr (.inr ⟨pdIndex vaddr, pdIndex_lt, here ▸ notNull, here⟩)

theorem PageLoaded.balanced (loaded : PageLoaded before after flat vaddr bytes frame table)
    (balanced : Balanced before.pmm) : Balanced after.pmm ∧
      after.pmm.freePages + 1 + (if (directory before).tables (pdIndex vaddr) = 0 then 1 else 0) =
        before.pmm.freePages := by
  have taken := balanced.take loaded.inside loaded.clear
  have supplied := loaded.supply.balanced taken.1
  refine ⟨supplied.1, ?_⟩
  omega

theorem PageLoaded.enough {count : Nat}
    (loaded : PageLoaded before after flat vaddr bytes frame table)
    (enough : Enough before.pmm
      (count + (if (directory before).tables (pdIndex vaddr) = 0 then 1 else 0) + 1)) :
    Enough after.pmm count :=
  loaded.supply.enough (enough.take loaded.inside loaded.clear)

/-- The new frame holds no table. -/
theorem PageLoaded.untabled (loaded : PageLoaded before after flat vaddr bytes frame table)
    (represents : Represents before flat) (slot : Nat) :
    (directory after).tables slot ≠ frame * 4096 := by
  intro same
  by_cases here : slot = pdIndex vaddr
  · have different := loaded.apart
    rw [here, loaded.supply.here.1] at same
    omega
  · rw [loaded.supply.tables_other here] at same
    by_cases null : (directory before).tables slot = 0
    · have clear := loaded.clear
      rw [show frame = 0 by omega, represents.nullUsed] at clear
      cases clear
    · have apart := represents.wired.apart loaded.clear null
      omega

theorem PageLoaded.memory_other (loaded : PageLoaded before after flat vaddr bytes frame table)
    (short : bytes ≤ 4096) {address : Nat} (notTable : address / 4096 ≠ table)
    (notFrame : address / 4096 ≠ frame) : after.memory address = before.memory address :=
  loaded.memory address (by omega) (by omega)

end

end Helios.Exec
