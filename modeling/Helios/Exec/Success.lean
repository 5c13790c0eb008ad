import Helios.Exec.Ownership

namespace Helios.Exec

open Helios.Data Helios.Pmm Helios.Paging

/-! Whether the pages of a successful `ramdisk_load` are mapped.

`map_page` returns nothing, and `ramdisk_load` returns 0 behind a call of it for
the stack page whatever became of that page. -/

/-- The state in which a load comes to one of its pages. -/
def beforePage (start : PageManager) (code size : Nat) : Nat → PageManager
  | 0 => start
  | index + 1 =>
      match loadPage mapPage (beforePage start code size index) code size (index * 4096) with
      | .done after => after
      | _ => beforePage start code size index

/-- The frame that a load allocates for one of its pages. -/
def pageFrame (start : PageManager) (code size index : Nat) : Nat :=
  (allocFrame (beforePage start code size index).pmm).2 / 4096

/-- `map_page` for a page, with the frame that `alloc_frame` gives. -/
def mapFor (paging : PageManager) (vaddr : Nat) : Option PageManager :=
  mapPage { paging with pmm := (allocFrame paging.pmm).1 } vaddr (allocFrame paging.pmm).2 userFlags

/-- The page is present and mapped to the frame for user reads and writes. -/
def MappedTo (paging : PageManager) (vaddr frame : Nat) : Prop :=
  walk paging vaddr = some ⟨frame, 1, 1⟩

/-- What a load that has returned 0 promises. -/
structure Truthful (start : PageManager) (code size : Nat) (after : PageManager) : Prop where
  image : ∀ index < codePages size,
    MappedTo after (u32 (userBase + index * 0x1000)) (pageFrame start code size index)
  stack : MappedTo after (stackVaddr - 0x1000) (pageFrame start code size (codePages size))
  copied : ∀ index < codePages size, ∃ mapped,
    mapFor (beforePage start code size index) (u32 (userBase + index * 0x1000)) = some mapped ∧
      MappedTo mapped (u32 (userBase + index * 0x1000)) (pageFrame start code size index)

/-- The loop goes on behind each of the first pages. -/
def Passes (start : PageManager) (code size count : Nat) : Prop :=
  ∀ index < count, loadPage mapPage (beforePage start code size index) code size (index * 4096) =
    .done (beforePage start code size (index + 1))

/-- The frames of the first pages of a load, each mapped before it was filled. -/
def Filled (start : PageManager) (code size : Nat) (frames : Nat → Nat) (count : Nat) : Prop :=
  ∀ index < count, MappedFirst (beforePage start code size index) (loadVaddr size index)
      (frames index) ∧
    mapFor (beforePage start code size index) (loadVaddr size index) =
      some (mappedPage (beforePage start code size index) (loadVaddr size index))

section

variable {start paging after : PageManager} {flat : FlatMap} {frames others : Nat → Nat}
variable {code size count fuel frame table index vaddr : Nat}

theorem beforePage_succ
    (loaded : loadPage mapPage (beforePage start code size count) code size (count * 4096) = .done after) :
    beforePage start code size (count + 1) = after := by
  rw [beforePage, loaded]

theorem MappedFirst.pageFrame_eq
    (first : MappedFirst (beforePage start code size index) vaddr frame) :
    pageFrame start code size index = frame := by
  rw [pageFrame, first.allocated, Nat.mul_div_cancel _ (by decide)]

theorem Filled.step (filled : Filled start code size frames count)
    (first : MappedFirst (beforePage start code size count) (loadVaddr size count) frame)
    (same : mapFor (beforePage start code size count) (loadVaddr size count) =
      some (mappedPage (beforePage start code size count) (loadVaddr size count))) :
    Filled start code size (Function.update frames count frame) (count + 1) := by
  intro index less
  by_cases newest : index = count
  · rw [newest, Function.update_self]
    exact ⟨first, same⟩
  · rw [Function.update_of_ne newest]
    exact filled index (by omega)

theorem Passes.step (passes : Passes start code size count)
    (loaded : loadPage mapPage (beforePage start code size count) code size (count * 4096) = .done after) :
    Passes start code size (count + 1) := by
  intro index less
  by_cases newest : index = count
  · rw [newest, beforePage_succ loaded, loaded]
  · exact passes index (by omega)

theorem Loading.pages_filled
    (loading : Loading start flat size frames count (beforePage start code size count))
    (foretold : Foretold start flat size others count (beforePage start code size count))
    (reached : TablesReached start size) (passes : Passes start code size count)
    (filled : Filled start code size frames count) (below : count ≤ codePages size)
    (short : size ≤ 0xFFFFF000)
    (loaded : loadPages mapPage fuel (beforePage start code size count) code size (count * 4096) =
      some (.done after)) :
    after = beforePage start code size (codePages size) ∧ Passes start code size (codePages size) ∧
      (∃ others, Foretold start flat size others (codePages size) after) ∧
      ∃ frames, Loading start flat size frames (codePages size) after ∧
        Filled start code size frames (codePages size) := by
  induction fuel generalizing count frames others with
  | zero => cases loaded
  | succ fuel ih =>
      by_cases less : count * 4096 < size
      · have more := lt_codePages.mpr less
        obtain ⟨middle, body, rest⟩ := (loadPages_more less).mp loaded
        have direct := body
        rw [foretold.loadPage_direct (reached count below) more] at direct
        obtain ⟨frame, table, first, page, next⟩ := loading.next_page more (by omega) direct
        obtain ⟨other, later, _⟩ := foretold.next_page more short direct
        rw [next, ← beforePage_succ body] at rest
        rw [← beforePage_succ body] at page later
        exact ih (loading.step page) later (passes.step body)
          (filled.step first (foretold.mapPage_direct (reached count below) _ _)) more rest
      · have whole := mt lt_codePages.mp less
        rw [loadPages_end less] at loaded
        cases loaded
        rw [show codePages size = count by omega]
        exact ⟨rfl, passes, ⟨others, foretold⟩, frames, loading, filled⟩

theorem collides_iff (code : index < codePages size) (small : codePages size < 1048576) :
    pageNumber (loadVaddr size index) = pageNumber (stackVaddr - 0x1000) ↔ index = 0xBF7FF := by
  rw [pageNumber_code code, ← @loadVaddr_stack size, pageNumber_stack]
  omega

theorem truthful_mapped (loading : Loading start flat size frames (codePages size)
      (beforePage start code size (codePages size)))
    (filled : Filled start code size frames (codePages size))
    (first : MappedFirst (beforePage start code size (codePages size)) (stackVaddr - 0x1000) frame)
    (page : NextPage (beforePage start code size (codePages size)) after flat size frames
      (codePages size) frame table) :
    Truthful start code size after ↔ size ≤ 0xBF7FF000 := by
  have settled := (loading.step page).settled
  have small := loading.count_lt
  constructor
  · intro truthful
    by_contra long
    have code : 0xBF7FF < codePages size := lt_codePages.mpr (by omega)
    -- The code page in the place of the stack page would have the stack's frame.
    have collides := (collides_iff code small).mpr rfl
    have itsFrame := truthful.image 0xBF7FF code
    have stack := truthful.stack
    rw [MappedTo, settled.placed.represents.walk_eq] at itsFrame stack
    rw [← loadVaddr_code code, collides, stack, first.pageFrame_eq,
      (filled 0xBF7FF code).1.pageFrame_eq, Option.some.injEq, Mapping.mk.injEq] at itsFrame
    have marked := (loading.placed.fresh 0xBF7FF code).2.2
    rw [← itsFrame.1, page.clear] at marked
    cases marked
  · intro short
    have apart : ∀ index < codePages size,
        pageNumber (loadVaddr size index) ≠ pageNumber (stackVaddr - 0x1000) := by
      intro index code same
      have place := (collides_iff code small).mp same
      have inside := lt_codePages.mp code
      omega
    refine ⟨fun index code => ?_, ?_, fun index code => ?_⟩
    · have walked := settled.walk_mapped (Nat.lt_succ_of_lt code) rfl fun _ _ => apart index code
      rw [Function.update_of_ne code.ne] at walked
      rw [MappedTo, ← loadVaddr_code code, (filled index code).1.pageFrame_eq, walked]
    · have walked := settled.walk_mapped (Nat.lt_succ_self (codePages size))
        (congrArg pageNumber loadVaddr_stack.symm) fun less => absurd less (Nat.lt_irrefl _)
      rw [Function.update_self] at walked
      rw [MappedTo, first.pageFrame_eq, walked]
    · rw [← loadVaddr_code code, (filled index code).1.pageFrame_eq]
      exact ⟨_, (filled index code).2, (filled index code).1.mapped⟩

theorem boot_three_free : ∃ paging, paging = boot (fun _ => 0) 2068 (fun _ => 0)
      (fun _ => ⟨fun _ => 0, fun _ => 0⟩) 4096 ∧ Ready paging identityFlat ∧
    paging.pmm.initialized = true ∧ paging.pmm.freePages = 3 ∧
    (∀ slot ≠ 0, (directory paging).tables slot = 0) ∧ TablesReached paging 1 := by
  have total : (initPmm (fun _ => 0) 2068).totalPages = 517 := by
    rw [initPmm_totalPages]
    rfl
  have reserved : reservedPages 517 = 513 := rfl
  have room : reservedPages (initPmm (fun _ => 0) 2068).totalPages <
      (initPmm (fun _ => 0) 2068).totalPages := by
    rw [total, reserved]
    omega
  obtain ⟨sequential, bootTotal, tables⟩ := @boot_sequential (fun _ => 0) 2068 4096 (fun _ => 0)
    (fun _ => ⟨fun _ => 0, fun _ => 0⟩) room
  have represents := @boot_represents (fun _ => 0) 2068 4096 (fun _ => 0)
    (fun _ => ⟨fun _ => 0, fun _ => 0⟩) (boot_available room)
  rw [total, reserved] at sequential tables
  rw [total] at bootTotal
  have free := sequential.freePages
  refine ⟨_, rfl, ready_sequential represents sequential ?_, sequential.initialized, by omega,
    fun slot upper => ?_, oneByte_reached represents sequential (by decide) tables⟩
  · rw [bootTotal, reserved]
    omega
  · rw [tables, Function.update_of_ne upper]

end

/-- A load that reaches its tables and returns 0 has mapped all its pages to their
frames exactly when the stack page got its table and the code ends below the
stack page. -/
theorem exec_success_truthful_iff (ramdisk : Ramdisk) (path : List UInt8)
    (start after : PageManager) (flat : FlatMap) (entry : RamdiskEntry) (ready : Ready start flat)
    (found : search ramdisk path = some entry) (reached : TablesReached start entry.size)
    (loads : ramdiskLoad ramdisk path start = some (.done after)) :
    Passes start entry.data entry.size (codePages entry.size) ∧
      loadStack mapPage (beforePage start entry.data entry.size (codePages entry.size)) =
        .done after ∧
      (Truthful start entry.data entry.size after ↔
        StackBacked start entry.size ∧ entry.size ≤ 0xBF7FF000) := by
  obtain ⟨same, middle, here, _, pages, stack⟩ := loadImage_eq_done.mp loads
  rw [found, Option.some.injEq] at here
  subst here
  have short := loadPages_small pages (by decide) (by decide)
  have initial : Loading start flat entry.size (fun _ => 0) 0
      (beforePage start entry.data entry.size 0) := loading_start ready
  have foretold : Foretold start flat entry.size (fun _ => 0) 0
      (beforePage start entry.data entry.size 0) := foretold_start ready.represents
  obtain ⟨ended, passes, ⟨others, later⟩, frames, loading, filled⟩ :=
    initial.pages_filled foretold reached (fun index less => absurd less (Nat.not_lt_zero index))
      (fun index less => absurd less (Nat.not_lt_zero index)) (Nat.zero_le _) short pages
  subst ended
  refine ⟨passes, stack, ?_⟩
  rw [later.loadStack_direct (reached _ (Nat.le_refl _))] at stack
  cases loadStack_done loading.placed.represents stack with
  | inl mapped =>
      obtain ⟨frame, table, first, page⟩ := mapped
      rw [← @loadVaddr_stack entry.size, ← @loadBytes_stack entry.size] at page
      rw [truthful_mapped loading filled first page]
      exact (and_iff_right (loading.step page).backed).symm
  | inr lost =>
      obtain ⟨frame, lost⟩ := lost
      have settled := loading.settled_lost lost
      refine iff_of_false (fun truthful => ?_) fun backed => loading.unbacked lost backed.1
      have stackMapped := truthful.stack
      rw [MappedTo, walk, settled.placed.represents.absent _ (settled.unmapped rfl)] at stackMapped
      cases stackMapped

theorem exec_success_truthful_iff_oneByte :
    ∃ start after, run Paging.step (boot (fun _ => 0) 8192 (fun _ => 0)
        (fun _ => ⟨fun _ => 0, fun _ => 0⟩) 4096) (List.replicate 0 .alloc) = some start ∧
      ramdiskLoad oneByteDisk [115, 104] start = some (.done after) ∧
      Truthful start 0x100000 1 after := by
  obtain ⟨start, after, booted, _, sequential, total, _, reached, loads⟩ := boot_loads
  obtain ⟨flat, ready⟩ := boot_allocs_ready booted
  have free := sequential.freePages
  have backed : StackBacked start 1 := stackBacked_free (by omega)
  have truthful := (exec_success_truthful_iff oneByteDisk [115, 104] start after flat
    ⟨some [115, 104], 0x100000, 1⟩ ready rfl reached loads).2.2
  exact ⟨start, after, booted, loads, truthful.mpr ⟨backed, by decide⟩⟩

/-- With three free frames, for the code page, its table and the stack page, the
load returns 0 and the stack page is not there. -/
theorem stack_page_missing :
    ∃ after, ramdiskLoad oneByteDisk [115, 104] (boot (fun _ => 0) 2068 (fun _ => 0)
        (fun _ => ⟨fun _ => 0, fun _ => 0⟩) 4096) = some (.done after) ∧
      walk after 0xBFBFF000 = none ∧
      ¬ Truthful (boot (fun _ => 0) 2068 (fun _ => 0) (fun _ => ⟨fun _ => 0, fun _ => 0⟩) 4096)
        0x100000 1 after := by
  obtain ⟨start, same, ready, initialized, free, tables, reached⟩ := boot_three_free
  rw [← same]
  obtain ⟨after, loads⟩ := oneByte_loads ready initialized (by omega) rfl reached
  have pages : codePages 1 = 1 := rfl
  have card : (missingSlots start 1 1).card = (missingSlots start 1 0).card + 1 :=
    card_missingSlots_new (tables _ (by decide)) fun index less => absurd less (Nat.not_lt_zero index)
  have unbacked : ¬ StackBacked start 1 := by
    intro backed
    obtain here | ⟨index, less, same⟩ | room := backed
    · exact here (tables _ (by decide))
    · rw [pages] at less
      rw [show index = 0 by omega] at same
      exact absurd same (by decide)
    · rw [pages] at room
      omega
  have absent : walk after 0xBFBFF000 = none := by
    have image : search oneByteDisk [115, 104] = some ⟨some [115, 104], 0x100000, 1⟩ := rfl
    cases (ramdiskLoad_loaded ready image reached loads).2.2 with
    | mapped frames loading => exact absurd loading.backed unbacked
    | lost frames middle frame loading stack =>
        have settled := loading.settled_lost stack
        rw [← show stackVaddr - 0x1000 = 0xBFBFF000 by decide, walk,
          settled.placed.represents.absent _ (settled.unmapped rfl)]
        rfl
  refine ⟨after, loads, absent, fun truthful => ?_⟩
  have mapped := truthful.stack
  rw [MappedTo, show stackVaddr - 0x1000 = 0xBFBFF000 by decide, absent] at mapped
  cases mapped

end Helios.Exec
