import Helios.Exec.Model
import Helios.Paging.Reach

namespace Helios.Exec

open Helios.Data Helios.Pmm Helios.Paging Helios.Process Helios.Strings

/-! What a failed `ramdisk_load` leaves behind. -/

def readByte (paging : PageManager) (vaddr : Nat) : Option UInt8 :=
  (translate paging vaddr).map paging.memory

/-- The allocator, every mapping and every byte that was readable are as before. -/
structure Unchanged (before after : PageManager) : Prop where
  bitmap : after.pmm.bitmap = before.pmm.bitmap
  freePages : after.pmm.freePages = before.pmm.freePages
  mappings : ∀ vaddr, walk after vaddr = walk before vaddr
  bytes : ∀ vaddr byte, readByte before vaddr = some byte → readByte after vaddr = some byte

/-- `alloc_frame` has nothing to give. -/
def Exhausted (pmm : PmmManager) : Prop :=
  pmm.initialized = false ∨ pmm.freePages = 0 ∨ ∀ page < pmm.totalPages, pmm.bitmap.test page = true

/-- There is no image to load, or not even the first frame for it. -/
def NothingLoaded (ramdisk : Ramdisk) (path : List UInt8) (pmm : PmmManager) : Prop :=
  search ramdisk path = none ∨ (∃ entry, search ramdisk path = some entry ∧ entry.data = 0) ∨
    Exhausted pmm

/-- The function frees no frame. -/
def Growing (map : MapPage) : Prop :=
  ∀ paging vaddr paddr flags after, map paging vaddr paddr flags = some after →
    Grows paging.pmm after.pmm

section

variable {map : MapPage} {paging after : PageManager}
variable {code size off fuel vaddr paddr flags dest src len : Nat}

theorem mapPage_growing : Growing mapPage := fun _ _ _ _ _ mapped => mapPageVia_grows mapped

theorem copyByte_memory (copied : copyByte paging dest src = some after) :
    ∃ memory, after = { paging with memory } := by
  simp only [copyByte, Option.bind_eq_some_iff, Option.map_eq_some_iff] at copied
  obtain ⟨_, _, _, _, rfl⟩ := copied
  exact ⟨_, rfl⟩

theorem memcpy_memory (copied : memcpy paging dest src len = some after) :
    ∃ memory, after = { paging with memory } := by
  rw [memcpy] at copied
  generalize List.range len = indices at copied
  induction indices generalizing paging with
  | nil =>
      cases copied
      exact ⟨_, rfl⟩
  | cons index rest ih =>
      rw [List.foldlM_cons] at copied
      obtain ⟨middle, here, later⟩ := Option.bind_eq_some_iff.mp copied
      obtain ⟨memory, same⟩ := copyByte_memory here
      subst same
      obtain ⟨filled, last⟩ := ih later
      exact ⟨filled, last⟩

theorem loadPage_grows (growing : Growing map) {ended : Outcome}
    (result : loadPage map paging code size off = ended) (left : ended.state = some after) :
    Grows (allocFrame paging.pmm).1 after.pmm := by
  rw [loadPage] at result
  generalize allocFrame paging.pmm = allocated at result ⊢
  obtain ⟨pmm, page⟩ := allocated
  by_cases null : page = 0
  · simp only [null, if_true] at result
    subst result
    cases left
    exact Grows.refl
  · simp only [null, if_false] at result
    generalize loaded : Option.bind _ _ = finished at result
    cases finished with
    | none =>
        subst result
        cases left
    | some filled =>
        subst result
        cases left
        obtain ⟨mapped, placed, copied⟩ := Option.bind_eq_some_iff.mp loaded
        obtain ⟨memory, same⟩ := memcpy_memory copied
        rw [same]
        exact growing _ _ _ _ _ placed

/-- The first thing that the loop does is to take a frame. -/
theorem loadPages_grows (growing : Growing map) {ended : Outcome}
    (result : loadPages map fuel paging code size off = some ended) (left : ended.state = some after) :
    Grows paging.pmm after.pmm ∧ (off < size → Grows (allocFrame paging.pmm).1 after.pmm) := by
  induction fuel generalizing paging off with
  | zero => cases result
  | succ fuel ih =>
      by_cases more : off < size
      · have later : Grows (allocFrame paging.pmm).1 after.pmm := by
          simp only [loadPages, more, if_true] at result
          cases body : loadPage map paging code size off with
          | fault =>
              simp only [body, Option.some.injEq] at result
              exact loadPage_grows growing (body.trans result) left
          | failed stopped =>
              simp only [body, Option.some.injEq] at result
              exact loadPage_grows growing (body.trans result) left
          | done middle =>
              simp only [body] at result
              exact (loadPage_grows growing body rfl).trans (ih result).1
        exact ⟨allocFrame_grows.trans later, fun _ => later⟩
      · simp only [loadPages, more, if_false, Option.some.injEq] at result
        subst result
        cases left
        exact ⟨Grows.refl, fun less => absurd less more⟩

theorem loadStack_grows (growing : Growing map) {ended : Outcome}
    (result : loadStack map paging = ended) (left : ended.state = some after) :
    Grows (allocFrame paging.pmm).1 after.pmm := by
  rw [loadStack] at result
  generalize allocFrame paging.pmm = allocated at result ⊢
  obtain ⟨pmm, page⟩ := allocated
  by_cases null : page = 0
  · simp only [null, if_true] at result
    subst result
    cases left
    exact Grows.refl
  · simp only [null, if_false] at result
    generalize mapped : map _ _ _ _ = finished at result
    cases finished with
    | none =>
        subst result
        cases left
    | some filled =>
        subst result
        cases left
        exact growing _ _ _ _ _ mapped

variable {ramdisk : Ramdisk} {path : List UInt8} {entry : RamdiskEntry}

theorem loadImage_grows (growing : Growing map) {ended : Outcome}
    (found : search ramdisk path = some entry) (data : entry.data ≠ 0)
    (result : loadImage map ramdisk path paging = some ended) (left : ended.state = some after) :
    Grows (allocFrame paging.pmm).1 after.pmm := by
  simp only [loadImage, found, data, if_false] at result
  cases pages : loadPages map (paging.pmm.totalPages + 1) paging entry.data entry.size 0 with
  | none => simp [pages] at result
  | some middle =>
      by_cases code : 0 < entry.size
      · cases middle with
        | fault =>
            simp only [pages, Option.some.injEq] at result
            exact (loadPages_grows growing (result ▸ pages) left).2 code
        | failed stopped =>
            simp only [pages, Option.some.injEq] at result
            exact (loadPages_grows growing (result ▸ pages) left).2 code
        | done loaded =>
            simp only [pages, Option.some.injEq] at result
            exact ((loadPages_grows growing pages rfl).2 code).trans
              (allocFrame_grows.trans (loadStack_grows growing result left))
      · simp only [loadPages, code, if_false] at pages
        cases pages
        simp only [loadPages, code, if_false, Option.some.injEq] at result
        exact loadStack_grows growing result left

theorem allocFrame_exhausted {pmm : PmmManager} (exhausted : Exhausted pmm) :
    allocFrame pmm = (pmm, 0) := by
  cases allocFrame_cases pmm with
  | inl failed => exact failed.1
  | inr taken =>
      obtain ⟨page, free, ready, some_left, _⟩ := taken
      obtain ⟨inside, clear, _⟩ := firstFree_eq_some.mp free
      obtain raw | none_left | full := exhausted
      · simp [ready] at raw
      · exact absurd none_left some_left
      · simp [full page inside] at clear

theorem loadPage_exhausted (exhausted : allocFrame paging.pmm = (paging.pmm, 0)) :
    loadPage map paging code size off = .failed paging := by
  rw [loadPage, exhausted]
  rfl

theorem loadStack_exhausted (exhausted : allocFrame paging.pmm = (paging.pmm, 0)) :
    loadStack map paging = .failed paging := by
  rw [loadStack, exhausted]
  rfl

theorem loadImage_exhausted (exhausted : allocFrame paging.pmm = (paging.pmm, 0)) :
    loadImage map ramdisk path paging = some (.failed paging) := by
  cases found : search ramdisk path with
  | none => simp only [loadImage, found]
  | some entry =>
      by_cases data : entry.data = 0
      · simp only [loadImage, found, data, if_true]
      · by_cases code : 0 < entry.size
        · simp only [loadImage, found, data, if_false, loadPages, code, if_true,
            loadPage_exhausted exhausted]
        · simp only [loadImage, found, data, if_false, loadPages, code,
            loadStack_exhausted exhausted]

/-- The failure of a load changes nothing exactly when it was noticed before
the first frame was taken. -/
theorem ramdiskLoad_unchanged_iff
    (result : ramdiskLoad ramdisk path paging = some (.failed after)) :
    Unchanged paging after ↔ NothingLoaded ramdisk path paging.pmm := by
  constructor
  · intro unchanged
    by_contra loaded
    simp only [NothingLoaded, not_or, not_exists, not_and] at loaded
    obtain ⟨present, data, available⟩ := loaded
    obtain ⟨entry, found⟩ := Option.ne_none_iff_exists'.mp present
    have grows := loadImage_grows mapPage_growing found (data entry found) result rfl
    cases allocFrame_cases paging.pmm with
    | inl failed => exact available failed.2
    | inr taken =>
        obtain ⟨page, free, _, _, allocated⟩ := taken
        have marked : (allocFrame paging.pmm).1.bitmap.test page = true := by
          rw [allocated]
          simp [take_bitmap, Bitmap.test_set]
        have still := grows.used page marked
        rw [unchanged.bitmap, (firstFree_eq_some.mp free).2.1] at still
        cases still
  · intro early
    have same : after = paging := by
      cases early with
      | inl missing =>
          simp only [ramdiskLoad, loadImage, missing, Option.some.injEq, Outcome.failed.injEq] at result
          exact result.symm
      | inr rest =>
          cases rest with
          | inl empty =>
              obtain ⟨entry, found, data⟩ := empty
              simp only [ramdiskLoad, loadImage, found, data, if_true, Option.some.injEq,
                Outcome.failed.injEq] at result
              exact result.symm
          | inr exhausted =>
              rw [ramdiskLoad, loadImage_exhausted (allocFrame_exhausted exhausted), Option.some.injEq,
                Outcome.failed.injEq] at result
              exact result.symm
    subst same
    exact ⟨rfl, rfl, fun _ => rfl, fun _ _ readable => readable⟩

theorem Grows.clearBits_le {first second : PmmManager} (grows : Grows first second) :
    (second.bitmap.clearBits second.totalPages).card ≤
      (first.bitmap.clearBits first.totalPages).card := by
  apply Finset.card_le_card
  intro page
  rw [Bitmap.mem_clearBits, Bitmap.mem_clearBits, grows.totalPages]
  intro clear
  refine ⟨clear.1, ?_⟩
  cases marked : first.bitmap.test page with
  | false => rfl
  | true =>
      rw [grows.used page marked] at clear
      exact absurd clear.2 (by decide)

theorem loadPage_takes (growing : Growing map) (result : loadPage map paging code size off = .done after) :
    (after.pmm.bitmap.clearBits after.pmm.totalPages).card <
      (paging.pmm.bitmap.clearBits paging.pmm.totalPages).card := by
  have grows := Grows.clearBits_le (loadPage_grows growing result rfl)
  cases allocFrame_cases paging.pmm with
  | inl failed => simp [loadPage_exhausted failed.1] at result
  | inr taken =>
      obtain ⟨page, free, _, _, allocated⟩ := taken
      obtain ⟨inside, clear, _⟩ := firstFree_eq_some.mp free
      have fewer := Bitmap.card_clearBits_set inside clear
      rw [allocated, take_totalPages, take_bitmap] at grows
      omega

theorem loadPages_ends (growing : Growing map)
    (enough : (paging.pmm.bitmap.clearBits paging.pmm.totalPages).card < fuel) :
    ∃ ended, loadPages map fuel paging code size off = some ended := by
  induction fuel generalizing paging off with
  | zero => omega
  | succ fuel ih =>
      by_cases more : off < size
      · cases body : loadPage map paging code size off with
        | fault => exact ⟨.fault, by simp only [loadPages, more, if_true, body]⟩
        | failed stopped => exact ⟨.failed stopped, by simp only [loadPages, more, if_true, body]⟩
        | done middle =>
            have fewer := loadPage_takes growing body
            obtain ⟨ended, result⟩ := @ih middle (u32 (off + 0x1000)) (by omega)
            exact ⟨ended, by simp only [loadPages, more, if_true, body, result]⟩
      · exact ⟨.done paging, by simp only [loadPages, more, if_false]⟩

/-- The loop of `ramdisk_load` ends for every size, also where its counter wraps. -/
theorem ramdiskLoad_ends (ramdisk : Ramdisk) (path : List UInt8) (paging : PageManager) :
    ∃ ended, ramdiskLoad ramdisk path paging = some ended := by
  cases found : search ramdisk path with
  | none => exact ⟨.failed paging, by simp only [ramdiskLoad, loadImage, found]⟩
  | some entry =>
      by_cases data : entry.data = 0
      · exact ⟨.failed paging, by simp only [ramdiskLoad, loadImage, found, data, if_true]⟩
      · have few : (paging.pmm.bitmap.clearBits paging.pmm.totalPages).card <
            paging.pmm.totalPages + 1 := Nat.lt_succ_of_le Bitmap.card_clearBits_le
        obtain ⟨ended, pages⟩ := @loadPages_ends mapPage paging entry.data entry.size 0 _ mapPage_growing few
        cases ended with
        | fault => exact ⟨.fault, by simp only [ramdiskLoad, loadImage, found, data, if_false, pages]⟩
        | failed stopped =>
            exact ⟨.failed stopped, by simp only [ramdiskLoad, loadImage, found, data, if_false, pages]⟩
        | done loaded =>
            exact ⟨loadStack mapPage loaded, by simp only [ramdiskLoad, loadImage, found, data, if_false, pages]⟩

/-- A failed exec leaves the system as it was exactly when it failed before the
first frame was taken. -/
theorem exec_failure_unchanged_iff (ramdisk : Ramdisk) (path : List UInt8) (paging : PageManager)
    (current : Pcb) :
    (∃ ended, ramdiskLoad ramdisk path paging = some ended) ∧
      (∀ after, ramdiskLoad ramdisk path paging = some (.failed after) →
        (Unchanged paging after ↔ NothingLoaded ramdisk path paging.pmm)) ∧
      ∀ after changed, sysExecve ramdisk path paging current =
          some (.returned after changed (-1)) →
        changed = current ∧ (Unchanged paging after ↔ NothingLoaded ramdisk path paging.pmm) := by
  refine ⟨ramdiskLoad_ends ramdisk path paging, fun after => ramdiskLoad_unchanged_iff, ?_⟩
  intro after changed result
  obtain ⟨ended, loaded⟩ := ramdiskLoad_ends ramdisk path paging
  rw [sysExecve, loaded, Option.map_some, Option.some.injEq] at result
  cases ended with
  | fault => cases result
  | failed stopped =>
      cases result
      exact ⟨rfl, ramdiskLoad_unchanged_iff loaded⟩
  | done filled =>
      injection result with _ _ code
      exact absurd code (by decide)

/-- A ramdisk with one image of one byte, in the identity mapped memory. -/
def oneByteDisk : Ramdisk := fun slot =>
  if slot = 0 then ⟨some [115, 104], 0x100000, 1⟩ else ⟨none, 0, 0⟩

theorem exec_failure_unchanged_missing :
    ∃ after, ramdiskLoad oneByteDisk [108, 115] (boot (fun _ => 0) 2064 (fun _ => 0)
        (fun _ => ⟨fun _ => 0, fun _ => 0⟩) 4096) = some (.failed after) ∧
      Unchanged (boot (fun _ => 0) 2064 (fun _ => 0) (fun _ => ⟨fun _ => 0, fun _ => 0⟩) 4096)
        after := by
  have missing : search oneByteDisk [108, 115] = none := by decide
  have result : ramdiskLoad oneByteDisk [108, 115] (boot (fun _ => 0) 2064 (fun _ => 0)
      (fun _ => ⟨fun _ => 0, fun _ => 0⟩) 4096) = some (.failed (boot (fun _ => 0) 2064
        (fun _ => 0) (fun _ => ⟨fun _ => 0, fun _ => 0⟩) 4096)) := by
    simp only [ramdiskLoad, loadImage, missing]
  exact ⟨_, result, ((exec_failure_unchanged_iff oneByteDisk [108, 115] _ {}).2.1 _ result).mpr
    (.inl missing)⟩

theorem loadPage_copied {mapped : PageManager} {pmm : PmmManager} {page chunk : Nat}
    (allocated : allocFrame paging.pmm = (pmm, page)) (notNull : page ≠ 0)
    (target : u32 (userBase + off) = vaddr) (source : u32 (code + off) = src)
    (length : (if sub32 size off > 0x1000 then 0x1000 else sub32 size off) = chunk)
    (placed : map { paging with pmm } vaddr page userFlags = some mapped)
    (copied : memcpy mapped vaddr src chunk = some after) :
    loadPage map paging code size off = .done after := by
  rw [loadPage, allocated]
  simp only [notNull, if_false, target, source, length, placed, Option.bind_some, copied]

theorem memcpy_one {source target : Nat} (readable : translate paging (u32 src) = some source)
    (writable : translate paging (u32 dest) = some target) :
    memcpy paging dest src 1 =
      some { paging with memory := paging.memory.store8 target (paging.memory source) } := by
  simp only [memcpy, List.range_one, List.foldlM_cons, List.foldlM_nil, Nat.add_zero, copyByte,
    readable, writable, Option.bind_some, Option.map_some]
  rfl

/-- The image and its table fit, the stack page does not. -/
theorem ramdiskLoad_no_stack {middle last : PmmManager}
    (represents : Represents paging identityFlat) (enough : 0 < paging.pmm.totalPages)
    (grows : Grows paging.pmm middle) (empty : (directory paging).tables 1 = 0)
    (first : allocFrame paging.pmm = (middle, 514 * 4096))
    (second : allocFrame middle = (last, 515 * 4096))
    (exhausted : allocFrame last = (last, 0)) :
    ∃ after, ramdiskLoad oneByteDisk [115, 104] paging = some (.failed after) := by
  have found : search oneByteDisk [115, 104] = some ⟨some [115, 104], 0x100000, 1⟩ := rfl
  have slot : pdIndex userBase = 1 := rfl
  have mapped := (represents.grow grows).mapPage_supplied userBase (514 * 4096) userFlags
    (.inr (by rw [second]; simp))
  have pmmAfter := (mapPage_created (514 * 4096) userFlags (slot ▸ empty) second (by decide)).1
  have table : tableFor { paging with pmm := middle } userBase = 515 * 4096 := by
    rw [tableFor, slot, if_neg (not_not.mpr (by rw [directory_pmm, empty])), second]
  have itself : SelfMapped { paging with pmm := middle } (515 * 4096) :=
    (represents.grow grows).selfMapped_page (by decide)
      (show identityFlat 515 = some ⟨515, 1, 0⟩ by decide) rfl
  have placed := (represents.grow grows).mapPage_direct (514 * 4096) userFlags fun _ => table ▸ itself
  have body : ∃ filled, loadPage mapPage paging 0x100000 1 0 = .done filled ∧ filled.pmm = last := by
    have readable : ∃ source, translate
        (Direct.mapPage { paging with pmm := middle } userBase (514 * 4096) userFlags) (u32 0x100000) =
          some source := by
      rw [Paging.translate, mapped.walk_eq]
      exact ⟨_, rfl⟩
    have writable : ∃ target, translate
        (Direct.mapPage { paging with pmm := middle } userBase (514 * 4096) userFlags) (u32 userBase) =
          some target := by
      rw [Paging.translate, mapped.walk_eq]
      exact ⟨_, rfl⟩
    obtain ⟨source, readable⟩ := readable
    obtain ⟨target, writable⟩ := writable
    have copied := memcpy_one readable writable
    exact ⟨_, loadPage_copied first (by omega) rfl rfl rfl placed copied, pmmAfter⟩
  obtain ⟨filled, loaded, pmmFilled⟩ := body
  rw [← pmmFilled] at exhausted
  refine ⟨filled, ?_⟩
  have pages : loadPages mapPage (paging.pmm.totalPages + 1) paging 0x100000 1 0 = some (.done filled) := by
    obtain ⟨more, total⟩ := Nat.exists_eq_add_of_lt enough
    rw [total]
    simp only [loadPages, loaded, Nat.zero_lt_one, if_true]
    rfl
  simp only [ramdiskLoad, loadImage, found, pages, loadStack_exhausted exhausted]
  rfl

/-- With 516 pages of memory the exec of a one-byte image fails at its stack
page, and the frames of the image and of its table stay taken. -/
theorem exec_failure_keeps_frames :
    ∃ after, ramdiskLoad oneByteDisk [115, 104] (boot (fun _ => 0) 2064 (fun _ => 0)
        (fun _ => ⟨fun _ => 0, fun _ => 0⟩) 4096) = some (.failed after) ∧
      ¬ Unchanged (boot (fun _ => 0) 2064 (fun _ => 0) (fun _ => ⟨fun _ => 0, fun _ => 0⟩) 4096)
        after := by
  have total : (initPmm (fun _ => 0) 2064).totalPages = 516 := by
    rw [initPmm_totalPages]
    rfl
  have reserved : reservedPages 516 = 513 := rfl
  have room : reservedPages (initPmm (fun _ => 0) 2064).totalPages <
      (initPmm (fun _ => 0) 2064).totalPages := by
    rw [total, reserved]
    omega
  obtain ⟨sequential, bootTotal, tables⟩ := @boot_sequential (fun _ => 0) 2064 4096 (fun _ => 0)
    (fun _ => ⟨fun _ => 0, fun _ => 0⟩) room
  have represents := @boot_represents (fun _ => 0) 2064 4096 (fun _ => 0)
    (fun _ => ⟨fun _ => 0, fun _ => 0⟩) (boot_available room)
  rw [total, reserved] at sequential tables
  rw [total] at bootTotal
  generalize boot (fun _ => 0) 2064 (fun _ => 0) (fun _ => ⟨fun _ => 0, fun _ => 0⟩) 4096 =
    paging at sequential bootTotal tables represents ⊢
  have empty : (directory paging).tables 1 = 0 := by
    rw [tables]
    rfl
  have first := sequential.allocFrame_eq (by omega)
  have taken := sequential.take (by omega)
  have middleTotal : (Pmm.take paging.pmm 514).totalPages = paging.pmm.totalPages :=
    take_totalPages
  have grows : Grows paging.pmm (Pmm.take paging.pmm 514) := take_grows
  generalize Pmm.take paging.pmm 514 = middle at first taken middleTotal grows
  have second := taken.allocFrame_eq (by omega)
  have takenTwice := taken.take (by omega)
  have lastTotal : (Pmm.take middle 515).totalPages = middle.totalPages := take_totalPages
  generalize Pmm.take middle 515 = last at second takenTwice lastTotal
  obtain ⟨after, result⟩ := ramdiskLoad_no_stack represents (by omega) grows empty first second
    (takenTwice.exhausted (by omega))
  refine ⟨after, result, fun unchanged => ?_⟩
  cases (ramdiskLoad_unchanged_iff result).mp unchanged with
  | inl missing => cases missing
  | inr rest =>
      cases rest with
      | inl noData =>
          obtain ⟨entry, found, data⟩ := noData
          cases found
          cases data
      | inr exhausted =>
          rw [allocFrame_exhausted exhausted] at first
          have null := congrArg Prod.snd first
          simp at null

end

end Helios.Exec
