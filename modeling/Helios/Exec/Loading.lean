import Helios.Exec.Placed

namespace Helios.Exec

open Helios.Data Helios.Pmm Helios.Paging

/-! A successful `ramdisk_load`, page by page. -/

/-- The stack page of a load finds a table: its slot has one, gets one for the
code, or two frames are left behind the code. -/
def StackBacked (start : PageManager) (size : Nat) : Prop :=
  (directory start).tables (pdIndex (stackVaddr - 0x1000)) ≠ 0 ∨
    (∃ index < codePages size, loadSlot size index = pdIndex (stackVaddr - 0x1000)) ∨
      codePages size + (missingSlots start size (codePages size)).card + 1 < start.pmm.freePages

/-- What the first `count` pages of a load did to `start`, with the account of
the frames that they took. -/
structure Loading (start : PageManager) (flat : FlatMap) (size : Nat) (frames : Nat → Nat)
    (count : Nat) (paging : PageManager) : Prop where
  ready : Ready start flat
  placed : Placed start flat size frames count paging
  balanced : Balanced paging.pmm
  initialized : paging.pmm.initialized = start.pmm.initialized
  owned : ∀ page, paging.pmm.bitmap.test page = true → start.pmm.bitmap.test page = true ∨
    (∃ index < count, frames index = page) ∨ HoldsTable (directory paging) page
  left : paging.pmm.freePages + count + (missingSlots start size count).card =
    start.pmm.freePages

section

variable {map : MapPage} {start paging after : PageManager} {flat : FlatMap}
variable {frames other : Nat → Nat} {code size off fuel slot frame table page count : Nat}

theorem Loading.owned_step (loading : Loading start flat size frames count paging)
    (loaded : NextPage paging after flat size frames count frame table)
    (marked : after.pmm.bitmap.test page = true) : start.pmm.bitmap.test page = true ∨
      (∃ index < count, frames index = page) ∨ page = frame ∨
        HoldsTable (directory after) page := by
  cases loaded.used marked with
  | inr now => exact .inr (.inr now)
  | inl before =>
      obtain old | mapped | ⟨slot, small, here, address⟩ := loading.owned page before
      · exact .inl old
      · exact .inr (.inl mapped)
      · refine .inr (.inr (.inr ⟨slot, small, ?_⟩))
        rw [loaded.supply.kept here]
        exact ⟨here, address⟩

theorem Loading.step (loading : Loading start flat size frames count paging)
    (loaded : NextPage paging after flat size frames count frame table) :
    Loading start flat size (Function.update frames count frame) (count + 1) after := by
  obtain ⟨balanced, left⟩ := loaded.balanced loading.balanced
  refine ⟨loading.ready, loading.placed.step loaded, balanced, ?_, fun page marked => ?_, ?_⟩
  · rw [loaded.supply.initialized, take_initialized, loading.initialized]
  · obtain old | ⟨index, less, same⟩ | new | table := loading.owned_step loaded marked
    · exact .inl old
    · refine .inr (.inl ⟨index, by omega, ?_⟩)
      rw [Function.update_of_ne (by omega)]
      exact same
    · exact .inr (.inl ⟨count, Nat.lt_succ_self count, new ▸ Function.update_self ..⟩)
    · exact .inr (.inr table)
  · have card := loading.placed.card_missingSlots
    have earlier := loading.left
    rw [loadSlot] at card
    omega

theorem loading_start (ready : Ready start flat) : Loading start flat size frames 0 start := by
  refine ⟨ready, placed_start ready.represents, ready.balanced, rfl, fun _ marked => .inl marked, ?_⟩
  simp [missingSlots]

/-- There are fewer frames than pages in the address space. -/
theorem Loading.count_lt (loading : Loading start flat size frames count paging) :
    count < 1048576 := by
  have bounded := loading.ready.represents.bounded
  have fewer : (start.pmm.bitmap.clearBits start.pmm.totalPages).card ≤
      (Finset.Ico 1 start.pmm.totalPages).card := by
    apply Finset.card_le_card
    intro page
    rw [Bitmap.mem_clearBits, Finset.mem_Ico]
    intro clear
    refine ⟨?_, clear.1⟩
    by_contra null
    rw [show page = 0 by omega, loading.ready.represents.nullUsed] at clear
    exact absurd clear.2 (by decide)
  rw [Nat.card_Ico, ← loading.ready.balanced.count, ← loading.left] at fewer
  omega

theorem loadPages_more (more : off < size) :
    loadPages map (fuel + 1) paging code size off = some (.done after) ↔
      ∃ middle, loadPage map paging code size off = .done middle ∧
        loadPages map fuel middle code size (u32 (off + 0x1000)) = some (.done after) := by
  simp only [loadPages, more, if_true]
  cases body : loadPage map paging code size off with
  | fault => simp
  | failed stopped => simp
  | done middle => simp

theorem loadPages_end (whole : ¬ off < size) :
    loadPages map (fuel + 1) paging code size off = some (.done paging) := by
  simp only [loadPages, whole, if_false]

/-- The loop does not end behind a size that its counter cannot reach. -/
theorem loadPages_small (loaded : loadPages map fuel paging code size off = some (.done after))
    (small : off < 4294967296) (aligned : off % 4096 = 0) : size ≤ 0xFFFFF000 := by
  induction fuel generalizing paging off with
  | zero => cases loaded
  | succ fuel ih =>
      by_cases more : off < size
      · obtain ⟨middle, _, rest⟩ := (loadPages_more more).mp loaded
        refine ih rest (u32_lt _) ?_
        rw [u32]
        omega
      · omega

/-- One iteration of the loop. -/
theorem Loading.next_page (loading : Loading start flat size frames count paging)
    (more : count < codePages size) (small : size < 4294967296)
    (loaded : loadPage directMap paging code size (count * 4096) = .done after) :
    ∃ frame table, MappedFirst paging (loadVaddr size count) frame ∧
      NextPage paging after flat size frames count frame table ∧
      u32 (count * 4096 + 0x1000) = (count + 1) * 4096 := by
  have less := lt_codePages.mp more
  obtain ⟨frame, table, first, page⟩ :=
    loadPage_done loading.placed.represents (by omega) less small loaded
  rw [← loadVaddr_code more, ← loadBytes_code more] at page
  rw [← loadVaddr_code more] at first
  have below := (loading.step page).count_lt
  exact ⟨frame, table, first, page, by rw [u32]; omega⟩

theorem loadPages_one (nonempty : 0 < size) (short : size ≤ 4096)
    (loaded : loadPage map paging code size 0 = .done after) :
    loadPages map (fuel + 2) paging code size 0 = some (.done after) := by
  have whole : ¬ u32 (0 + 0x1000) < size := by
    rw [u32]
    omega
  exact (loadPages_more nonempty).mpr ⟨after, loaded, loadPages_end whole⟩

theorem Loading.all_pages (loading : Loading start flat size frames count paging)
    (below : count ≤ codePages size) (small : size < 4294967296)
    (loaded : loadPages directMap fuel paging code size (count * 4096) = some (.done after)) :
    ∃ frames, Loading start flat size frames (codePages size) after := by
  induction fuel generalizing paging count frames with
  | zero => cases loaded
  | succ fuel ih =>
      by_cases less : count * 4096 < size
      · have more := lt_codePages.mpr less
        obtain ⟨middle, body, rest⟩ := (loadPages_more less).mp loaded
        obtain ⟨frame, table, _, page, next⟩ := loading.next_page more small body
        rw [next] at rest
        exact ih (loading.step page) more rest
      · have whole := mt lt_codePages.mp less
        rw [loadPages_end less] at loaded
        cases loaded
        rw [show codePages size = count by omega]
        exact ⟨frames, loading⟩

variable {ramdisk : Ramdisk} {path : List UInt8} {entry : RamdiskEntry}

theorem loadImage_eq_done : loadImage map ramdisk path paging = some (.done after) ↔
    ∃ entry middle, search ramdisk path = some entry ∧ entry.data ≠ 0 ∧
      loadPages map (paging.pmm.totalPages + 1) paging entry.data entry.size 0 = some (.done middle) ∧
      loadStack map middle = .done after := by
  cases found : search ramdisk path with
  | none => simp [loadImage, found]
  | some entry =>
      by_cases data : entry.data = 0
      · simp [loadImage, found, data]
      · simp only [loadImage, found, data, if_false]
        cases pages : loadPages map (paging.pmm.totalPages + 1) paging entry.data entry.size 0 with
        | none => simp [pages]
        | some middle =>
            cases middle with
            | fault => simp [pages]
            | failed stopped => simp [pages]
            | done loaded => simp [data, pages]

/-- Everything that a successful load does. -/
inductive Loaded (start : PageManager) (flat : FlatMap) (size : Nat) (after : PageManager) : Prop where
  | mapped (frames : Nat → Nat) (loading : Loading start flat size frames (codePages size + 1) after)
  | lost (frames : Nat → Nat) (middle : PageManager) (frame : Nat)
      (loading : Loading start flat size frames (codePages size) middle)
      (stack : StackLost middle after frame)

theorem Loading.stack_page (loading : Loading start flat size frames (codePages size) paging)
    (loaded : loadStack directMap paging = .done after) : Loaded start flat size after := by
  cases loadStack_done loading.placed.represents loaded with
  | inl mapped =>
      obtain ⟨frame, table, _, page⟩ := mapped
      rw [← @loadVaddr_stack size, ← @loadBytes_stack size] at page
      exact .mapped _ (loading.step page)
  | inr lost =>
      obtain ⟨frame, stack⟩ := lost
      exact .lost frames paging frame loading stack

theorem loadImage_loaded (ready : Ready start flat) (found : search ramdisk path = some entry)
    (loads : loadImage directMap ramdisk path start = some (.done after)) :
    entry.size < 4294967296 ∧ Loaded start flat entry.size after := by
  obtain ⟨same, middle, here, _, pages, stack⟩ := loadImage_eq_done.mp loads
  rw [found, Option.some.injEq] at here
  subst here
  have short := loadPages_small pages (by decide) (by decide)
  have small : entry.size < 4294967296 := by omega
  have initial : Loading start flat entry.size (fun _ => 0) 0 start := loading_start ready
  obtain ⟨frames, loading⟩ := initial.all_pages (Nat.zero_le _) small pages
  exact ⟨small, loading.stack_page stack⟩

theorem Loading.backed (loading : Loading start flat size frames (codePages size + 1) paging) :
    StackBacked start size := by
  by_contra unbacked
  simp only [StackBacked, not_or, not_exists, not_and, not_not] at unbacked
  obtain ⟨empty, unserved, full⟩ := unbacked
  rw [← @loadSlot_stack size] at empty unserved
  have left := loading.left
  rw [card_missingSlots_new empty unserved] at left
  omega

/-- The stack page stays unmapped only where the last frame was needed for its table. -/
theorem Loading.unbacked (loading : Loading start flat size frames (codePages size) paging)
    (stack : StackLost paging after frame) : ¬ StackBacked start size := by
  intro backed
  obtain ⟨empty, unserved⟩ := (loading.placed.empty_iff _).mp stack.empty
  have taken := loading.balanced.take stack.inside stack.clear
  have grown : Represents { paging with pmm := take paging.pmm frame }
      (loadedFlat flat size frames (codePages size)) := loading.placed.represents.grow take_grows
  have none_left := taken.1.exhausted grown.bounded grown.nullUsed
    (by simpa only [take_initialized] using stack.initialized) stack.exhausted
  have left := loading.left
  obtain here | ⟨index, less, same⟩ | room := backed
  · exact here empty
  · exact unserved index less same
  · omega

theorem StackLost.placed (stack : StackLost paging after frame)
    (placed : Placed start flat size frames count paging) :
    Placed start flat size frames count after := by
  rw [stack.same]
  exact placed.grow take_grows

/-- The pages that have their frames in the end: the stack page is one of them
exactly where it found a table. -/
structure Settled (start : PageManager) (flat : FlatMap) (size : Nat) (frames : Nat → Nat)
    (count : Nat) (after : PageManager) : Prop where
  ready : Ready start flat
  placed : Placed start flat size frames count after
  code : codePages size ≤ count
  stack : count ≤ codePages size + 1
  small : count < 1048576
  backed : StackBacked start size ↔ codePages size < count
  unmapped : count = codePages size →
    (directory after).tables (pdIndex (stackVaddr - 0x1000)) = 0

theorem Loading.settled (loading : Loading start flat size frames (codePages size + 1) after) :
    Settled start flat size frames (codePages size + 1) after :=
  ⟨loading.ready, loading.placed, Nat.le_succ _, Nat.le_refl _, loading.count_lt,
    ⟨fun _ => Nat.lt_succ_self _, fun _ => loading.backed⟩, fun same => by omega⟩

theorem Loading.settled_lost (loading : Loading start flat size frames (codePages size) paging)
    (stack : StackLost paging after frame) :
    Settled start flat size frames (codePages size) after := by
  refine ⟨loading.ready, stack.placed loading.placed, Nat.le_refl _, Nat.le_succ _,
    loading.count_lt, ⟨fun backed => absurd backed (loading.unbacked stack), fun less => by omega⟩,
    fun _ => ?_⟩
  rw [stack.same, directory_pmm]
  exact stack.empty

theorem Loaded.settled (loaded : Loaded start flat size after) :
    ∃ frames count, Settled start flat size frames count after := by
  cases loaded with
  | mapped frames loading => exact ⟨frames, _, loading.settled⟩
  | lost frames middle frame loading stack => exact ⟨frames, _, loading.settled_lost stack⟩

theorem Settled.walk_mapped (settled : Settled start flat size frames count after)
    {index vaddr : Nat} (less : index < count)
    (same : pageNumber vaddr = pageNumber (loadVaddr size index))
    (apart : index < codePages size → codePages size < count →
      pageNumber (loadVaddr size index) ≠ pageNumber (stackVaddr - 0x1000)) :
    walk after vaddr = some ⟨frames index, 1, 1⟩ := by
  have code := settled.code
  have stack := settled.stack
  have small := settled.small
  rw [settled.placed.represents.walk_eq, same]
  apply loadedFlat_last less
  intro later below more
  by_cases last : later = codePages size
  · rw [last, loadVaddr_stack]
    exact (apart (by omega) (by omega)).symm
  · exact code_apart (by omega) more (by omega)

theorem Settled.walk_cases (settled : Settled start flat size frames count after) (vaddr : Nat) :
    (∃ index < count, pageNumber (loadVaddr size index) = pageNumber vaddr ∧
        walk after vaddr = some ⟨frames index, 1, 1⟩) ∨
      (∀ index < count, pageNumber (loadVaddr size index) ≠ pageNumber vaddr) ∧
        walk after vaddr = walk start vaddr := by
  rw [settled.placed.represents.walk_eq, settled.ready.represents.walk_eq]
  cases loadedFlat_cases flat size frames count (pageNumber vaddr) with
  | inl mapped =>
      obtain ⟨index, less, same, _, result⟩ := mapped
      exact .inl ⟨index, less, same, result⟩
  | inr untouched => exact .inr untouched

/-- The slot of the stack page had no table before, if it has none now. -/
theorem Settled.stack_empty (settled : Settled start flat size frames count after)
    (unmapped : count = codePages size) :
    (directory start).tables (pdIndex (stackVaddr - 0x1000)) = 0 :=
  ((settled.placed.empty_iff _).mp (settled.unmapped unmapped)).1

end

end Helios.Exec
