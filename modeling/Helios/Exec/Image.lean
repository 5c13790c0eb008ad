import Helios.Exec.Residue

namespace Helios.Exec

open Helios.Data Helios.Pmm Helios.Paging

/-! The image that `ramdisk_load` builds in memory. -/

/-- The physical address of a byte of the image. -/
def imageAddress (start : PageManager) (data index : Nat) : Nat :=
  (translate start (u32 (data + index))).getD 0

/-- The frames that a load needs behind its first `count` pages. -/
def framesLeft (start : PageManager) (size count : Nat) : Nat :=
  codePages size + 1 - count + ((missingSlots start size (codePages size + 1)).card -
    (missingSlots start size count).card)

/-- An image in frames in use, at pages that the load does not replace, and
enough frames for its pages and their tables. -/
structure Loadable (start : PageManager) (flat : FlatMap) (entry : RamdiskEntry) : Prop where
  represents : Represents start flat
  data : entry.data ≠ 0
  small : entry.size ≤ 0xBF7FF000
  stored : ∀ index < entry.size, ∃ address, translate start (u32 (entry.data + index)) = some address ∧
    ¬ Free start.pmm (address / 4096)
  apart : ∀ index < entry.size, ¬ Remapped entry.size (pageNumber (u32 (entry.data + index)))
  enough : Enough start.pmm (codePages entry.size + 1 +
    (missingSlots start entry.size (codePages entry.size + 1)).card)

/-- The address lies in an entry, for a page of the load, of a table that exists
before. -/
def Rewritten (start : PageManager) (size address : Nat) : Prop :=
  ∃ index < codePages size + 1, (directory start).tables (loadSlot size index) ≠ 0 ∧
    (directory start).tables (loadSlot size index) + 4 * ptIndex (loadVaddr size index) ≤ address ∧
    address < (directory start).tables (loadSlot size index) + 4 * ptIndex (loadVaddr size index) + 4

/-- The image is at its place, in frames that were free, and nothing else moved. -/
structure Built (start after : PageManager) (entry : RamdiskEntry) (frames : Nat → Nat) : Prop where
  free : ∀ index ≤ codePages entry.size, Free start.pmm (frames index)
  distinct : ∀ index ≤ codePages entry.size, ∀ other ≤ codePages entry.size,
    frames index = frames other → index = other
  code : ∀ index < codePages entry.size, ∀ vaddr, pageNumber vaddr = 1024 + index →
    walk after vaddr = some ⟨frames index, 1, 1⟩
  stack : ∀ vaddr, pageNumber vaddr = 0xBFBFF →
    walk after vaddr = some ⟨frames (codePages entry.size), 1, 1⟩
  others : ∀ vaddr, pageNumber vaddr < 1024 ∨ 1024 + codePages entry.size ≤ pageNumber vaddr →
    pageNumber vaddr ≠ 0xBFBFF → walk after vaddr = walk start vaddr
  bytes : ∀ index < entry.size,
    readByte after (userBase + index) = readByte start (u32 (entry.data + index))
  image : ∀ index < entry.size,
    readByte after (u32 (entry.data + index)) = readByte start (u32 (entry.data + index))

/-- `map_page` for the next page, after its frame was taken. -/
abbrev mapNext (paging : PageManager) (size count frame : Nat) : PageManager :=
  Direct.mapPage { paging with pmm := take paging.pmm frame } (loadVaddr size count) (frame * 4096) userFlags

/-- The page is mapped to its frame, which is not filled yet. -/
abbrev NextMapped (paging : PageManager) (flat : FlatMap) (size : Nat) (frames : Nat → Nat)
    (count frame table : Nat) : Prop :=
  PageLoaded paging (mapNext paging size count frame) (loadedFlat flat size frames count)
    (loadVaddr size count) 0 frame table

/-- What holds behind the first `count` pages. -/
structure Copying (start : PageManager) (flat : FlatMap) (entry : RamdiskEntry) (frames : Nat → Nat)
    (count : Nat) (paging : PageManager) : Prop where
  placed : Placed start flat entry.size frames count paging
  distinct : ∀ index < count, ∀ other < count, frames index = frames other → index = other
  enough : Enough paging.pmm (framesLeft start entry.size count)
  image : ∀ index < entry.size, paging.memory (imageAddress start entry.data index) =
    start.memory (imageAddress start entry.data index)
  copied : ∀ index < count, ∀ offset < loadBytes entry.size index,
    paging.memory (frames index * 4096 + offset) =
      start.memory (imageAddress start entry.data (index * 4096 + offset))

section

variable {start paging after : PageManager} {flat : FlatMap} {frames : Nat → Nat}
variable {ramdisk : Ramdisk} {path : List UInt8} {entry : RamdiskEntry} {size count fuel frame table index offset : Nat}

/-- A page costs its frame and, where its slot is empty, a table. -/
theorem Placed.framesLeft_eq (placed : Placed start flat size frames count paging)
    (below : count < codePages size + 1) : framesLeft start size count =
      framesLeft start size (count + 1) +
        (if (directory paging).tables (loadSlot size count) = 0 then 1 else 0) + 1 := by
  have card := placed.card_missingSlots
  have later : (missingSlots start size (count + 1)).card ≤
      (missingSlots start size (codePages size + 1)).card := card_missingSlots_mono below
  rw [framesLeft, framesLeft]
  omega

theorem Loadable.address (loadable : Loadable start flat entry) (inside : index < entry.size) :
    translate start (u32 (entry.data + index)) = some (imageAddress start entry.data index) ∧
      ¬ Free start.pmm (imageAddress start entry.data index / 4096) := by
  obtain ⟨address, readable, used⟩ := loadable.stored index inside
  rw [imageAddress, readable]
  exact ⟨rfl, used⟩

/-- The image is read through its old mapping all along. -/
theorem Loadable.translate_eq (loadable : Loadable start flat entry)
    (placed : Placed start flat entry.size frames count paging)
    (below : count ≤ codePages entry.size + 1) (inside : index < entry.size) :
    translate paging (u32 (entry.data + index)) = some (imageAddress start entry.data index) := by
  rw [← (loadable.address inside).1, Exec.translate_eq placed.represents,
    Exec.translate_eq loadable.represents]
  cases loadedFlat_cases flat entry.size frames count (pageNumber (u32 (entry.data + index))) with
  | inl mapped =>
      obtain ⟨page, less, same, _⟩ := mapped
      exact absurd ⟨page, by omega, same⟩ (loadable.apart index inside)
  | inr untouched => rw [untouched.2]

/-- A frame that the load took was free. -/
theorem Placed.taken_free (placed : Placed start flat size frames count paging)
    (inside : frame < paging.pmm.totalPages) (clear : paging.pmm.bitmap.test frame = false) :
    Free start.pmm frame :=
  ⟨placed.grows.totalPages ▸ inside, placed.unused clear⟩

/-- In an old table `map_page` stores to the entry of the page, and new tables
are in free frames. -/
theorem Placed.mapPage_kept (placed : Placed start flat size frames count paging)
    (below : count < codePages size + 1)
    (mapped : NextMapped paging flat size frames count frame table) {address : Nat}
    (used : ¬ Free start.pmm (address / 4096)) (unwritten : ¬ Rewritten start size address) :
    (mapNext paging size count frame).memory address = paging.memory address := by
  cases mapped.supply with
  | existing here notNull pmm same =>
      apply mapPage_entry (here ▸ notNull)
      by_contra within
      rw [not_or, Nat.not_lt, Nat.not_le] at within
      obtain ⟨page, itsPage, inside, _⟩ := placed.represents.tables _ (here ▸ notNull)
      have index : ptIndex (loadVaddr size count) < 1024 := ptIndex_lt
      cases placed.tables (loadSlot size count) with
      | inl old =>
          rw [loadSlot] at old
          rw [old.1] at here within
          exact unwritten ⟨count, below, here ▸ notNull, within⟩
      | inr added =>
          obtain ⟨fresh, address, clear⟩ := added.fresh
          rw [loadSlot, itsPage] at address
          rw [itsPage] at within
          refine used ⟨?_, ?_⟩
          · rw [← placed.grows.totalPages]
            omega
          · rw [show _ / 4096 = fresh by omega]
            exact clear
  | created empty notNull inside clear pmm word itsUser added =>
      rw [take_totalPages] at inside
      rw [take_bitmap, Bitmap.test_set, Bool.or_eq_false_iff] at clear
      have free := placed.taken_free inside clear.2
      apply mapped.memory
      · by_contra within
        apply used
        rw [show address / 4096 = table by omega]
        exact free
      · omega

/-- The next page is mapped: there is a frame for it and one for its table. -/
theorem Placed.map_next (placed : Placed start flat size frames count paging) {left : Nat}
    (enough : Enough paging.pmm
      (left + (if (directory paging).tables (loadSlot size count) = 0 then 1 else 0) + 1)) :
    ∃ frame table, allocFrame paging.pmm = (take paging.pmm frame, frame * 4096) ∧
      frame * 4096 ≠ 0 ∧ NextMapped paging flat size frames count frame table := by
  have represents := placed.represents
  obtain ⟨frame, inside, clear, result, notNull⟩ :=
    enough.allocFrame represents.bounded represents.nullUsed
  have grown : Represents { paging with pmm := take paging.pmm frame }
      (loadedFlat flat size frames count) := represents.grow take_grows
  have supplied : (directory paging).tables (pdIndex (loadVaddr size count)) ≠ 0 ∨
      (allocFrame (take paging.pmm frame)).2 ≠ 0 := by
    by_cases empty : (directory paging).tables (loadSlot size count) = 0
    · rw [if_pos empty] at enough
      obtain ⟨_, _, _, again, tableNotNull⟩ :=
        (enough.take inside clear).allocFrame grown.bounded grown.nullUsed
      rw [again]
      exact .inr tableNotNull
    · exact .inl empty
  obtain ⟨table, mapped⟩ := frame_mapped represents inside clear _ supplied
  exact ⟨frame, table, result, notNull, mapped⟩

theorem Copying.step (small : entry.size < 4294967296) (copying : Copying start flat entry frames count paging)
    (below : count < codePages entry.size + 1)
    (loaded : NextPage paging after flat entry.size frames count frame table)
    (image : ∀ index < entry.size, after.memory (imageAddress start entry.data index) =
      paging.memory (imageAddress start entry.data index))
    (filled : ∀ offset < loadBytes entry.size count, after.memory (frame * 4096 + offset) =
      paging.memory (imageAddress start entry.data (count * 4096 + offset))) :
    Copying start flat entry (Function.update frames count frame) (count + 1) after := by
  have placed := copying.placed
  have before : ∀ index < count, Function.update frames count frame index = frames index :=
    fun index less => Function.update_of_ne (by omega) ..
  have last : Function.update frames count frame count = frame := Function.update_self ..
  have fresh : ∀ index < count, frames index ≠ frame := by
    intro index less same
    have clear := loaded.clear
    rw [← same, (placed.fresh index less).2.2] at clear
    cases clear
  refine ⟨placed.step loaded, ?_, ?_, fun index inside => ?_, ?_⟩
  · intro index less other below same
    by_cases newest : index = count
    · by_cases otherNewest : other = count
      · rw [newest, otherNewest]
      · rw [newest, last, before other (by omega)] at same
        exact absurd same.symm (fresh other (by omega))
    · by_cases otherNewest : other = count
      · rw [otherNewest, last, before index (by omega)] at same
        exact absurd same (fresh index (by omega))
      · rw [before index (by omega), before other (by omega)] at same
        exact copying.distinct index (by omega) other (by omega) same
  · apply loaded.enough
    have enough := copying.enough
    rw [placed.framesLeft_eq below] at enough
    exact enough
  · rw [image index inside, copying.image index inside]
  · intro index less offset short
    by_cases newest : index = count
    · rw [newest] at short ⊢
      rw [last, filled offset short, copying.image _ (loadBytes_inside small short)]
    · have inside : offset < 4096 := Nat.lt_of_lt_of_le short loadBytes_le
      rw [before index (by omega), placed.frame_kept loaded (by omega) inside]
      exact copying.copied index (by omega) offset short

/-- An image that the load does not write to. -/
def Unwritten (start : PageManager) (entry : RamdiskEntry) : Prop :=
  ∀ index < entry.size, ∀ address, translate start (u32 (entry.data + index)) = some address →
    ¬ Rewritten start entry.size address

theorem Loadable.codePages_lt (loadable : Loadable start flat entry) :
    codePages entry.size < 784384 := by
  have small := loadable.small
  rw [codePages]
  omega

theorem Loadable.kept (loadable : Loadable start flat entry) (unwritten : Unwritten start entry)
    (placed : Placed start flat entry.size frames count paging)
    (below : count < codePages entry.size + 1)
    (mapped : NextMapped paging flat entry.size frames count frame table)
    (inside : index < entry.size) :
    (mapNext paging entry.size count frame).memory (imageAddress start entry.data index) =
      paging.memory (imageAddress start entry.data index) := by
  obtain ⟨readable, used⟩ := loadable.address inside
  exact placed.mapPage_kept below mapped used (unwritten index inside _ readable)

/-- The bytes of the image are outside of the new frame, and readable next to it. -/
theorem Loadable.source (loadable : Loadable start flat entry)
    (placed : Placed start flat entry.size frames count paging)
    (below : count < codePages entry.size + 1)
    (mapped : NextMapped paging flat entry.size frames count frame table)
    (inside : index < entry.size) :
    translate (mapNext paging entry.size count frame) (u32 (entry.data + index)) =
        some (imageAddress start entry.data index) ∧
      imageAddress start entry.data index / 4096 ≠ frame := by
  obtain ⟨_, used⟩ := loadable.address inside
  constructor
  · rw [← loadable.translate_eq placed (by omega) inside, Exec.translate_eq mapped.represents,
      Exec.translate_eq placed.represents, Function.update_of_ne]
    intro same
    exact loadable.apart index inside ⟨count, below, same.symm⟩
  · intro same
    rw [same] at used
    exact used (placed.taken_free mapped.inside mapped.clear)

/-- One iteration of the loop: the bytes arrive as they are once the page is mapped. -/
theorem Loadable.load_code (loadable : Loadable start flat entry)
    (placed : Placed start flat entry.size frames count paging)
    (enough : Enough paging.pmm (framesLeft start entry.size count))
    (code : count < codePages entry.size) :
    ∃ after frame table, loadPage directMap paging entry.data entry.size (count * 4096) = .done after ∧
      NextMapped paging flat entry.size frames count frame table ∧
      NextPage paging after flat entry.size frames count frame table ∧
      (∀ address, address / 4096 ≠ frame →
        after.memory address = (mapNext paging entry.size count frame).memory address) ∧
      ∀ offset < loadBytes entry.size count, after.memory (frame * 4096 + offset) =
        (mapNext paging entry.size count frame).memory
          (imageAddress start entry.data (count * 4096 + offset)) := by
  have bounded := loadable.small
  rw [placed.framesLeft_eq (by omega)] at enough
  obtain ⟨frame, table, result, notNull, mapped⟩ := placed.map_next enough
  have target := mapped.target placed.represents loadVaddr_aligned loadVaddr_lt
  have sources : ∀ offset < loadBytes entry.size count,
      translate (mapNext paging entry.size count frame)
          (u32 (u32 (entry.data + count * 4096) + offset)) =
        some (imageAddress start entry.data (count * 4096 + offset)) ∧
      imageAddress start entry.data (count * 4096 + offset) / 4096 ≠ frame := by
    intro offset short
    have address : u32 (u32 (entry.data + count * 4096) + offset) =
        u32 (entry.data + (count * 4096 + offset)) := by
      simp only [u32]
      omega
    rw [address]
    exact loadable.source placed (by omega) mapped (loadBytes_inside (by omega) short)
  obtain ⟨memory, copied, filled, confined, bytes⟩ :=
    @Target.memcpy_copies _ _ _ _ (u32 (entry.data + count * 4096)) (loadBytes entry.size count)
      (fun offset => imageAddress start entry.data (count * 4096 + offset)) target loadBytes_le
      (fun offset short => (sources offset short).1) (fun offset short => (sources offset short).2)
  refine ⟨_, frame, table, (loadPage_eq_done result notNull).mpr ?_, mapped,
    mapped.fill filled confined, fun address apart => ?_, bytes⟩
  · rw [← loadVaddr_code code, ← loadBytes_code code]
    exact copied
  · have short := @loadBytes_le entry.size count
    exact confined _ (by simp only; omega)

theorem Placed.load_stack
    (placed : Placed start flat size frames (codePages size) paging)
    (enough : Enough paging.pmm (framesLeft start size (codePages size))) :
    ∃ frame table, loadStack directMap paging = .done (mapNext paging size (codePages size) frame) ∧
      NextMapped paging flat size frames (codePages size) frame table ∧
      NextPage paging (mapNext paging size (codePages size) frame) flat size frames (codePages size)
        frame table := by
  rw [placed.framesLeft_eq (Nat.lt_succ_self _)] at enough
  obtain ⟨frame, table, result, notNull, mapped⟩ := placed.map_next enough
  refine ⟨frame, table, ?_, mapped, ?_⟩
  · rw [loadStack_direct result notNull, ← @loadVaddr_stack size]
  · rw [NextPage, loadBytes_stack]
    exact mapped

theorem Copying.code_page (copying : Copying start flat entry frames count paging)
    (loadable : Loadable start flat entry) (unwritten : Unwritten start entry)
    (code : count < codePages entry.size) :
    ∃ after frame, loadPage directMap paging entry.data entry.size (count * 4096) = .done after ∧
      Copying start flat entry (Function.update frames count frame) (count + 1) after := by
  have placed := copying.placed
  have bounded := loadable.small
  have small : entry.size < 4294967296 := by omega
  obtain ⟨after, frame, table, loads, mapped, loaded, outside, bytes⟩ :=
    loadable.load_code placed copying.enough code
  have kept := fun index => @Loadable.kept start paging flat frames entry count frame table index
    loadable unwritten placed (by omega) mapped
  refine ⟨after, frame, loads, copying.step small (by omega) loaded (fun index inside => ?_)
    (fun offset short => ?_)⟩
  · rw [outside _ (loadable.source placed (by omega) mapped inside).2, kept index inside]
  · rw [bytes offset short, kept _ (loadBytes_inside small short)]

theorem Copying.all_pages (copying : Copying start flat entry frames count paging)
    (loadable : Loadable start flat entry) (unwritten : Unwritten start entry)
    (below : count ≤ codePages entry.size) (fuelled : codePages entry.size < count + fuel) :
    ∃ after frames, loadPages directMap fuel paging entry.data entry.size (count * 4096) = some (.done after) ∧
      Copying start flat entry frames (codePages entry.size) after := by
  induction fuel generalizing paging count frames with
  | zero => omega
  | succ fuel ih =>
      by_cases less : count * 4096 < entry.size
      · have small := loadable.small
        have next : u32 (count * 4096 + 0x1000) = (count + 1) * 4096 := by
          rw [u32]
          omega
        obtain ⟨middle, frame, body, later⟩ :=
          copying.code_page loadable unwritten (lt_codePages.mpr less)
        obtain ⟨after, frames, rest, done⟩ := ih later (lt_codePages.mpr less) (by omega)
        rw [← next] at rest
        exact ⟨after, frames, (loadPages_more less).mpr ⟨middle, body, rest⟩, done⟩
      · have whole := mt lt_codePages.mp less
        rw [show codePages entry.size = count by omega]
        exact ⟨paging, frames, loadPages_end less, copying⟩

theorem Copying.stack_page (copying : Copying start flat entry frames (codePages entry.size) paging)
    (loadable : Loadable start flat entry) (unwritten : Unwritten start entry) :
    ∃ after frame, loadStack directMap paging = .done after ∧
      Copying start flat entry (Function.update frames (codePages entry.size) frame)
        (codePages entry.size + 1) after := by
  have placed := copying.placed
  have bounded := loadable.small
  have below := Nat.lt_succ_self (codePages entry.size)
  obtain ⟨frame, table, loads, mapped, loaded⟩ := placed.load_stack copying.enough
  refine ⟨_, frame, loads, copying.step (by omega) below loaded
    (fun index inside => loadable.kept unwritten placed below mapped inside) (fun offset short => ?_)⟩
  rw [loadBytes_stack] at short
  omega

theorem copying_start (loadable : Loadable start flat entry) :
    Copying start flat entry frames 0 start := by
  refine ⟨placed_start loadable.represents, ?_, ?_, fun _ _ => rfl, ?_⟩
  · intro index less
    exact absurd less (Nat.not_lt_zero index)
  · apply loadable.enough.fewer
    rw [framesLeft]
    omega
  · intro index less
    exact absurd less (Nat.not_lt_zero index)

/-- The pages of a load of admitted size are all different. -/
theorem Loadable.walk_page (loadable : Loadable start flat entry)
    (placed : Placed start flat entry.size frames (codePages entry.size + 1) after)
    (below : index < codePages entry.size + 1) {vaddr : Nat}
    (same : pageNumber vaddr = pageNumber (loadVaddr entry.size index)) :
    walk after vaddr = some ⟨frames index, 1, 1⟩ := by
  have few := loadable.codePages_lt
  rw [placed.represents.walk_eq, same]
  apply loadedFlat_last below
  intro later less more
  by_cases stack : later = codePages entry.size
  · rw [stack, pageNumber_stack, pageNumber_code (by omega)]
    omega
  · exact code_apart (by omega) more (by omega)

theorem Loadable.walk_other (loadable : Loadable start flat entry)
    (placed : Placed start flat entry.size frames (codePages entry.size + 1) after) {vaddr : Nat}
    (apart : ¬ Remapped entry.size (pageNumber vaddr)) : walk after vaddr = walk start vaddr := by
  rw [placed.represents.walk_eq, loadable.represents.walk_eq]
  cases loadedFlat_cases flat entry.size frames (codePages entry.size + 1) (pageNumber vaddr) with
  | inl mapped =>
      obtain ⟨index, less, same, _⟩ := mapped
      exact absurd ⟨index, less, same⟩ apart
  | inr untouched => exact untouched.2

theorem remapped_cases (few : codePages size < 784384) {page : Nat} (remapped : Remapped size page) :
    1024 ≤ page ∧ page < 1024 + codePages size ∨ page = 0xBFBFF := by
  obtain ⟨index, below, same⟩ := remapped
  rw [← same]
  by_cases stack : index = codePages size
  · rw [stack]
    exact .inr pageNumber_stack
  · rw [pageNumber_code (by omega)]
    omega

theorem loadSlot_pos (few : codePages size < 784384) (below : index < codePages size + 1) :
    loadSlot size index ≠ 0 := by
  have cases := remapped_cases few ⟨index, below, rfl⟩
  rw [loadSlot, pdIndex_eq]
  omega

theorem Loadable.readByte_image (loadable : Loadable start flat entry) (inside : index < entry.size) :
    readByte start (u32 (entry.data + index)) =
      some (start.memory (imageAddress start entry.data index)) := by
  rw [readByte, (loadable.address inside).1]
  rfl

theorem Copying.built (copying : Copying start flat entry frames (codePages entry.size + 1) after)
    (loadable : Loadable start flat entry) : Built start after entry frames := by
  have placed := copying.placed
  have few := loadable.codePages_lt
  have small := loadable.small
  refine ⟨fun index below => ?_, fun index below other less => ?_, fun index less vaddr same => ?_,
    fun vaddr same => ?_, fun vaddr apart notStack => ?_, fun index inside => ?_,
    fun index inside => ?_⟩
  · obtain ⟨inside, clear, _⟩ := placed.fresh index (by omega)
    exact ⟨inside, clear⟩
  · exact copying.distinct index (by omega) other (by omega)
  · apply loadable.walk_page placed (by omega)
    rw [same, pageNumber_code less]
    omega
  · apply loadable.walk_page placed (Nat.lt_succ_self _)
    rw [same, pageNumber_stack]
  · apply loadable.walk_other placed
    intro remapped
    have cases := remapped_cases few remapped
    omega
  · have page : index / 4096 < codePages entry.size := lt_codePages.mpr (by omega)
    have vaddr : pageNumber (userBase + index) = 1024 + index / 4096 := by
      rw [pageNumber, u32_of_lt (by rw [userBase]; omega), userBase]
      omega
    have walked : walk after (userBase + index) = some ⟨frames (index / 4096), 1, 1⟩ := by
      apply loadable.walk_page placed (by omega)
      rw [vaddr, pageNumber_code page]
      omega
    have short : index % 4096 < loadBytes entry.size (index / 4096) := by
      rw [loadBytes_eq page (by omega)]
      omega
    have copied := copying.copied (index / 4096) (by omega) (index % 4096) short
    rw [Nat.div_add_mod'] at copied
    have position : (userBase + index) % 4096 = index % 4096 := by
      rw [userBase]
      omega
    rw [loadable.readByte_image inside, readByte, Paging.translate, walked, Option.map_some,
      Option.map_some, position, copied]
  · rw [loadable.readByte_image inside, readByte,
      loadable.translate_eq placed (Nat.le_refl _) inside, Option.map_some, copying.image index inside]

/-- The lowest bit of an entry says whether its page is present. -/
theorem present_byte (represents : Represents paging flat) {vaddr : Nat}
    (here : (directory paging).tables (pdIndex vaddr) ≠ 0) :
    (paging.memory ((directory paging).tables (pdIndex vaddr) + 4 * ptIndex vaddr)).toNat % 2 = 1 ↔
      flat (pageNumber vaddr) ≠ none := by
  have found := represents.contents (pdIndex vaddr) (ptIndex vaddr) ptIndex_lt
  rw [pageNumber_eq, lookup, if_neg here, decode, entryWord] at found
  have lowest : present (paging.memory.load32
      ((directory paging).tables (pdIndex vaddr) + 4 * ptIndex vaddr)) =
      (paging.memory ((directory paging).tables (pdIndex vaddr) + 4 * ptIndex vaddr)).toNat % 2 := by
    rw [present, field_eq, Memory.load32]
    omega
  rw [← found, lowest]
  by_cases absent : (paging.memory ((directory paging).tables (pdIndex vaddr) +
      4 * ptIndex vaddr)).toNat % 2 = 0
  · simp [absent]
  · rw [if_neg absent]
    simp only [ne_eq, reduceCtorEq, not_false_eq_true, iff_true]
    omega

/-- A page whose table is not mapped ends the load with a fault. -/
theorem Foretold.fault (foretold : Foretold start flat size frames count paging)
    (missing : TableMissing start size count)
    (available : ∃ frame, allocFrame paging.pmm = (take paging.pmm frame, frame * 4096) ∧
      frame * 4096 ≠ 0) :
    (count < codePages size → ∀ code, loadPage mapPage paging code size (count * 4096) = .fault) ∧
      (count = codePages size → loadStack mapPage paging = .fault) := by
  obtain ⟨frame, result, notNull⟩ := available
  have placed := foretold.missing missing (frame * 4096) userFlags
  rw [result] at placed
  constructor
  · intro code data
    rw [loadVaddr_code code] at placed
    rw [loadPage, result]
    simp only [notNull, if_false, placed, Option.bind_none]
  · intro last
    rw [last, loadVaddr_stack] at placed
    rw [loadStack, result]
    simp only [notNull, if_false, placed]

/-- The first page whose table is not mapped is come to. -/
theorem Loadable.pages_fault {last : Nat} (loadable : Loadable start flat entry)
    (foretold : Foretold start flat entry.size frames count paging)
    (enough : Enough paging.pmm (framesLeft start entry.size count))
    (reached : ∀ earlier < last, TableReached start entry.size earlier)
    (missing : TableMissing start entry.size last) (below : count ≤ last)
    (within : last ≤ codePages entry.size) (fuelled : codePages entry.size < count + fuel) :
    ∃ ended, loadPages mapPage fuel paging entry.data entry.size (count * 4096) = some ended ∧
      (ended = .fault ∨ ∃ middle, ended = .done middle ∧ loadStack mapPage middle = .fault) := by
  have short := loadable.small
  induction fuel generalizing paging count frames with
  | zero => omega
  | succ fuel ih =>
      have placed := foretold.placed
      rw [placed.framesLeft_eq (by omega)] at enough
      by_cases here : count = last
      · subst here
        have represents := placed.represents
        obtain ⟨frame, _, _, result, notNull⟩ :=
          (enough.fewer (show 1 ≤ _ by omega)).allocFrame represents.bounded represents.nullUsed
        obtain ⟨codeFault, stackFault⟩ := foretold.fault missing ⟨frame, result, notNull⟩
        by_cases more : count * 4096 < entry.size
        · refine ⟨.fault, ?_, .inl rfl⟩
          simp only [loadPages, more, if_true, codeFault (lt_codePages.mpr more)]
        · have whole := mt lt_codePages.mp more
          exact ⟨.done paging, loadPages_end more, .inr ⟨paging, rfl, stackFault (by omega)⟩⟩
      · have code : count < codePages entry.size := by omega
        have enoughHere := enough
        rw [← placed.framesLeft_eq (by omega)] at enoughHere
        obtain ⟨after, frame, table, body, mapped, loaded, _, _⟩ :=
          loadable.load_code placed enoughHere code
        obtain ⟨other, later, next⟩ := foretold.next_page code (by omega) body
        rw [← foretold.loadPage_direct (reached count (by omega)) code] at body
        obtain ⟨ended, rest, result⟩ := ih later (loaded.enough enough) (by omega) (by omega)
        refine ⟨ended, ?_, result⟩
        simp only [loadPages, lt_codePages.mp code, if_true, body, next, rest]

theorem Loadable.faults {last : Nat} (loadable : Loadable start flat entry)
    (found : search ramdisk path = some entry)
    (reached : ∀ earlier < last, TableReached start entry.size earlier)
    (missing : TableMissing start entry.size last) (within : last ≤ codePages entry.size) :
    ramdiskLoad ramdisk path start = some .fault := by
  have initial : Foretold start flat entry.size (fun _ => 0) 0 start :=
    foretold_start loadable.represents
  have copying : Copying start flat entry (fun _ => 0) 0 start := copying_start loadable
  have clear := loadable.enough.clear
  have most := @Bitmap.card_clearBits_le start.pmm.bitmap start.pmm.totalPages
  obtain ⟨ended, pages, result⟩ := loadable.pages_fault initial copying.enough reached missing
    (Nat.zero_le _) within (show codePages entry.size < 0 + (start.pmm.totalPages + 1) by omega)
  rw [Nat.zero_mul] at pages
  rw [ramdiskLoad, loadImage, found]
  simp only [loadable.data, if_false, pages]
  cases result with
  | inl fault => rw [fault]
  | inr stack =>
      obtain ⟨middle, done, fault⟩ := stack
      rw [done]
      exact congrArg some fault

/-- A load that reaches its tables, of an image outside of the page table entries
that it writes, puts every byte at its place; and a load that comes to a table
whose page is not mapped faults. -/
theorem ramdisk_load_builds_image (ramdisk : Ramdisk) (path : List UInt8) (start : PageManager)
    (flat : FlatMap) (entry : RamdiskEntry) (found : search ramdisk path = some entry)
    (loadable : Loadable start flat entry) :
    (TablesReached start entry.size → Unwritten start entry →
      ∃ after frames, ramdiskLoad ramdisk path start = some (.done after) ∧
        Built start after entry frames ∧ ∀ current, sysExecve ramdisk path start current =
          some (.returned after { current with eip := 0x400000, esp := 0xBFC00000 } 0)) ∧
      ∀ index ≤ codePages entry.size, (∀ earlier < index, TableReached start entry.size earlier) →
        TableMissing start entry.size index → ramdiskLoad ramdisk path start = some .fault := by
  refine ⟨fun reached unwritten => ?_,
    fun index within reached missing => loadable.faults found reached missing within⟩
  have initial : Copying start flat entry (fun _ => 0) 0 start := copying_start loadable
  have clear := loadable.enough.clear
  have most := @Bitmap.card_clearBits_le start.pmm.bitmap start.pmm.totalPages
  have short := loadable.small
  obtain ⟨middle, frames, pages, copying⟩ := initial.all_pages loadable unwritten (Nat.zero_le _)
    (show codePages entry.size < 0 + (start.pmm.totalPages + 1) by omega)
  obtain ⟨after, frame, stack, done⟩ := copying.stack_page loadable unwritten
  rw [Nat.zero_mul] at pages
  have loads : ramdiskLoad ramdisk path start = some (.done after) := by
    rw [ramdiskLoad_direct loadable.represents found (by omega) reached]
    exact loadImage_eq_done.mpr ⟨entry, middle, found, loadable.data, pages, stack⟩
  refine ⟨after, _, loads, done.built loadable, fun current => ?_⟩
  rw [sysExecve, loads]
  rfl

/-- A one-byte image at one megabyte. -/
theorem oneByte_loadable (represents : Represents start identityFlat)
    (sequential : Sequential start.pmm count) (high : 256 < count)
    (enough : 3 < start.pmm.freePages) :
    Loadable start identityFlat ⟨some [115, 104], 0x100000, 1⟩ := by
  have few : (missingSlots start 1 (codePages 1 + 1)).card ≤ codePages 1 + 1 := card_missingSlots_le
  have pages : codePages 1 = 1 := rfl
  have page : pageNumber (u32 (0x100000 + 0)) = 256 := by decide
  have readable : translate start (u32 (0x100000 + 0)) = some 0x100000 := by
    rw [translate_eq represents, page]
    rfl
  refine ⟨represents, by decide, by decide, fun index less => ?_, fun index less remapped => ?_, ?_⟩
  · rw [Nat.lt_one_iff.mp less]
    exact ⟨0x100000, readable,
      (oneByte_stored represents sequential high 0 Nat.zero_lt_one).2 _ readable⟩
  · rw [Nat.lt_one_iff.mp less, page] at remapped
    have cases := remapped_cases (show codePages 1 < 784384 by decide) remapped
    omega
  · exact sequential.balanced.enough sequential.initialized (by simp only; omega)

theorem ramdisk_load_builds_image_oneByte :
    ∃ start after frames, run Paging.step (boot (fun _ => 0) 8192 (fun _ => 0)
        (fun _ => ⟨fun _ => 0, fun _ => 0⟩) 4096) (List.replicate 0 .alloc) = some start ∧
      ramdiskLoad oneByteDisk [115, 104] start = some (.done after) ∧
      Built start after ⟨some [115, 104], 0x100000, 1⟩ frames := by
  obtain ⟨start, _, booted, ready, sequential, total, tables, reached, _⟩ := boot_loads
  have represents := ready.represents
  have free := sequential.freePages
  have loadable := oneByte_loadable represents sequential (by decide) (by omega)
  have unwritten : Unwritten start ⟨some [115, 104], 0x100000, 1⟩ := by
    intro _ _ _ _ rewritten
    obtain ⟨index, below, here, _⟩ := rewritten
    apply here
    rw [tables, Function.update_of_ne (loadSlot_pos (show codePages 1 < 784384 by decide) below)]
  obtain ⟨after, frames, loads, built, _⟩ := (ramdisk_load_builds_image oneByteDisk [115, 104] start
    identityFlat ⟨some [115, 104], 0x100000, 1⟩ rfl loadable).1 reached unwritten
  exact ⟨start, after, frames, booted, loads, built⟩

/-- Once the frames below four megabytes are gone, the table for the code page is
not mapped, and the load faults. -/
theorem new_table_faults :
    ∃ start, run Paging.step (boot (fun _ => 0) 8192 (fun _ => 0)
        (fun _ => ⟨fun _ => 0, fun _ => 0⟩) 4096) (List.replicate 510 .alloc) = some start ∧
      Loadable start identityFlat ⟨some [115, 104], 0x100000, 1⟩ ∧
      (∀ vaddr mapping, walk start vaddr = some mapping →
        start.pmm.bitmap.test mapping.frame = true) ∧
      ramdiskLoad oneByteDisk [115, 104] start = some .fault := by
  obtain ⟨start, reached, represents, sequential, total, tables⟩ := @boot_allocs 510 (by omega)
  have free := sequential.freePages
  have loadable := oneByte_loadable represents sequential (by decide) (by omega)
  refine ⟨start, reached, loadable, ?_, ?_⟩
  · exact walked_marked represents sequential (by omega) fun _ _ => identityFlat_inside
  · have first := sequential.allocFrame_eq (by omega)
    have second := (sequential.take (by omega)).allocFrame_eq (by rw [take_totalPages]; omega)
    have table : loadTable start 1 0 = 1025 * 4096 := by
      have empty : ¬ (directory start).tables (loadSlot 1 0) ≠ 0 := by
        rw [tables, show loadSlot 1 0 = 1 by decide]
        decide
      rw [loadTable_eq, supplies, if_neg empty, first, second]
    have missing : TableMissing start 1 0 := by
      refine ⟨by rw [table]; decide, ?_, fun earlier less => absurd less (Nat.not_lt_zero earlier)⟩
      rw [table, represents.walk_eq]
      decide
    exact loadable.faults rfl (fun earlier less => absurd less (Nat.not_lt_zero earlier)) missing
      (Nat.zero_le _)

/-- Five bytes: the entries of the stack page and of the first code page. -/
def tableEntry : RamdiskEntry := ⟨some [115, 104], 0x202FFC, 5⟩

def tableDisk : Ramdisk := fun slot =>
  if slot.val = 0 then tableEntry else ⟨none, 0, 0⟩

theorem tableEntry_readable (represents : Represents start flat)
    (identity : ∀ page < 1024, flat page = some ⟨page, 1, 0⟩) (inside : index < 5) :
    translate start (u32 (0x202FFC + index)) = some (0x202FFC + index) := by
  have page : pageNumber (u32 (0x202FFC + index)) = (0x202FFC + index) / 4096 := by
    rw [pageNumber, u32_of_lt (u32_lt _), u32_of_lt (by omega)]
  rw [translate_eq represents, page, identity _ (by omega), Option.map_some, u32_of_lt (by omega),
    Nat.div_add_mod']

theorem tableEntry_loadable (represents : Represents start flat)
    (identity : ∀ page < 1024, flat page = some ⟨page, 1, 0⟩)
    (sequential : Sequential start.pmm 1024) (total : start.pmm.totalPages = 2048) :
    Loadable start flat tableEntry := by
  have free := sequential.freePages
  have few : (missingSlots start 5 (codePages 5 + 1)).card ≤ codePages 5 + 1 := card_missingSlots_le
  have pages : codePages 5 = 1 := rfl
  refine ⟨represents, by decide, by decide, fun index (less : index < 5) => ?_,
    fun index (less : index < 5) remapped => ?_, ?_⟩
  · refine ⟨0x202FFC + index, tableEntry_readable represents identity less, fun free => ?_⟩
    obtain ⟨inside, clear⟩ := free
    rw [sequential.test _ inside] at clear
    simp only [decide_eq_false_iff_not] at clear
    omega
  · have cases := remapped_cases (show codePages 5 < 784384 by decide) remapped
    rw [pageNumber, u32_of_lt (u32_lt _), u32] at cases
    simp only [tableEntry] at cases
    omega
  · exact sequential.balanced.enough sequential.initialized (by simp only [tableEntry]; omega)

/-- The first byte of the image says whether the stack page is present, the last
one whether the first code page is. -/
theorem tableEntry_bytes (represents : Represents paging flat)
    (stackTable : (directory paging).tables 766 = 514 * 4096)
    (codeTable : (directory paging).tables 1 = 515 * 4096) :
    ((paging.memory 0x202FFC).toNat % 2 = 1 ↔ flat 0xBFBFF ≠ none) ∧
      ((paging.memory 0x203000).toNat % 2 = 1 ↔ flat 1024 ≠ none) := by
  have stackSlot : pdIndex 0xBFBFF000 = 766 := by decide
  have codeSlot : pdIndex 0x400000 = 1 := by decide
  have stack := @present_byte paging flat represents 0xBFBFF000 (by rw [stackSlot, stackTable]; decide)
  have code := @present_byte paging flat represents 0x400000 (by rw [codeSlot, codeTable]; decide)
  rw [stackSlot, stackTable, show ptIndex 0xBFBFF000 = 1023 by decide,
    show pageNumber 0xBFBFF000 = 0xBFBFF by decide] at stack
  rw [codeSlot, codeTable, show ptIndex 0x400000 = 0 by decide,
    show pageNumber 0x400000 = 1024 by decide] at code
  exact ⟨stack, code⟩

/-- The load of such an image: what is copied is what the tables hold behind the
mapping of the code page. -/
theorem tableEntry_copied (loadable : Loadable start flat tableEntry)
    (readable : ∀ index < 5, imageAddress start tableEntry.data index = 0x202FFC + index) :
    ∃ middle frame table stack last,
      loadImage directMap tableDisk [115, 104] start = some (.done (mapNext middle 5 (codePages 5) stack)) ∧
      NextMapped start flat 5 (fun _ => 0) 0 frame table ∧
      NextPage start middle flat 5 (fun _ => 0) 0 frame table ∧
      NextMapped middle flat 5 (Function.update (fun _ => 0) 0 frame) (codePages 5) stack last ∧
      Placed start flat 5 (Function.update (Function.update (fun _ => 0) 0 frame) (codePages 5) stack)
        (codePages 5 + 1) (mapNext middle 5 (codePages 5) stack) ∧
      ∀ offset < 5, readByte (mapNext middle 5 (codePages 5) stack) (userBase + offset) =
        some ((mapNext start 5 0 frame).memory (0x202FFC + offset)) := by
  have whole : loadBytes tableEntry.size 0 = 5 := by decide
  have initial : Placed start flat 5 (fun _ => 0) 0 start := placed_start loadable.represents
  have enough : Enough start.pmm (framesLeft start 5 0) := loadable.enough.fewer (by
    simp only [framesLeft, tableEntry]
    omega)
  obtain ⟨middle, frame, table, body, nextMapped, loaded, _, bytes⟩ :=
    loadable.load_code initial enough (show 0 < codePages 5 by decide)
  rw [show tableEntry.size = 5 from rfl] at nextMapped loaded bytes whole
  have placed : Placed start flat 5 (Function.update (fun _ => 0) 0 frame) (codePages 5) middle :=
    initial.step loaded
  have enoughNext : Enough middle.pmm (framesLeft start 5 (codePages 5)) := by
    rw [initial.framesLeft_eq (by decide)] at enough
    exact loaded.enough enough
  obtain ⟨stack, last, stackLoads, stackMapped, stackLoaded⟩ := placed.load_stack enoughNext
  have final := placed.step stackLoaded
  have clear := loadable.enough.clear
  have most := @Bitmap.card_clearBits_le start.pmm.bitmap start.pmm.totalPages
  have pages : loadPages directMap (start.pmm.totalPages + 1) start tableEntry.data tableEntry.size 0 =
      some (.done middle) := by
    rw [show start.pmm.totalPages + 1 = start.pmm.totalPages - 1 + 2 by omega]
    exact loadPages_one (by decide) (by decide) body
  refine ⟨middle, frame, table, stack, last,
    loadImage_eq_done.mpr ⟨tableEntry, middle, rfl, by decide, pages, stackLoads⟩,
    nextMapped, loaded, stackMapped, final, fun offset less => ?_⟩
  have page : pageNumber (userBase + offset) = pageNumber (loadVaddr 5 0) := by
    rw [pageNumber_code (show 0 < codePages 5 by decide), pageNumber, userBase, u32_of_lt (by omega)]
    omega
  have walked := loadable.walk_page final (show 0 < codePages 5 + 1 by decide) page
  rw [Function.update_of_ne (show 0 ≠ codePages 5 by decide), Function.update_self] at walked
  have kept := placed.frame_kept stackLoaded (show 0 < codePages 5 by decide)
    (show offset < 4096 by omega)
  rw [Function.update_self] at kept
  have copied := bytes offset (by rw [whole]; exact less)
  rw [Nat.zero_mul, Nat.zero_add, readable offset less] at copied
  rw [readByte, Paging.translate, walked, ← copied, ← kept, userBase, Option.map_some,
    Option.map_some, show (0x400000 + offset) % 4096 = offset by omega]

/-- The entry of the code page is copied as the load left it, the entry of the
stack page changes behind its copy. -/
theorem tableEntry_loaded (loadable : Loadable start flat tableEntry)
    (readable : ∀ index < 5, imageAddress start tableEntry.data index = 0x202FFC + index)
    (stackTable : (directory start).tables 766 = 514 * 4096)
    (codeTable : (directory start).tables 1 = 515 * 4096)
    (absentStack : flat 0xBFBFF = none) (absentCode : flat 1024 = none) :
    ∃ after, loadImage directMap tableDisk [115, 104] start = some (.done after) ∧
      readByte after (userBase + 4) ≠ readByte start (u32 (tableEntry.data + 4)) ∧
      readByte after (userBase + 0) ≠ readByte after (u32 (tableEntry.data + 0)) := by
  obtain ⟨middle, frame, table, stack, last, loads, mapped, loaded, stackMapped, final, read⟩ :=
    tableEntry_copied loadable readable
  have firstPage : pageNumber (loadVaddr 5 0) = 1024 := by decide
  have stackHere : (directory start).tables 766 ≠ 0 := by
    rw [stackTable]
    decide
  have codeHere : (directory start).tables 1 ≠ 0 := by
    rw [codeTable]
    decide
  have stackMiddle := (loaded.supply.kept stackHere).trans stackTable
  have codeMiddle := (loaded.supply.kept codeHere).trans codeTable
  have before := tableEntry_bytes loadable.represents stackTable codeTable
  have between := tableEntry_bytes mapped.represents
    ((mapped.supply.kept stackHere).trans stackTable)
    ((mapped.supply.kept codeHere).trans codeTable)
  have afterwards := tableEntry_bytes final.represents
    ((stackMapped.supply.kept (by rw [stackMiddle]; decide)).trans stackMiddle)
    ((stackMapped.supply.kept (by rw [codeMiddle]; decide)).trans codeMiddle)
  refine ⟨_, loads, ?_, ?_⟩
  · rw [read 4 (by decide), loadable.readByte_image (by decide), readable 4 (by decide)]
    intro same
    have equal : (mapNext start 5 0 frame).memory 0x203000 = start.memory 0x203000 :=
      Option.some.inj same
    have present : ((mapNext start 5 0 frame).memory 0x203000).toNat % 2 = 1 := by
      apply between.2.mpr
      rw [firstPage, Function.update_self]
      exact Option.some_ne_none _
    rw [equal] at present
    exact before.2.mp present absentCode
  · rw [read 0 (by decide), readByte,
      loadable.translate_eq final (Nat.le_refl _) (show 0 < tableEntry.size by decide),
      readable 0 (by decide)]
    intro same
    have equal : (mapNext start 5 0 frame).memory 0x202FFC =
        (mapNext middle 5 (codePages 5) stack).memory 0x202FFC := Option.some.inj same
    have present : ((mapNext middle 5 (codePages 5) stack).memory 0x202FFC).toNat % 2 = 1 := by
      apply afterwards.1.mpr
      rw [loadedFlat, pageNumber_stack, Function.update_self]
      exact Option.some_ne_none _
    rw [← equal] at present
    apply between.1.mp present
    rw [firstPage, Function.update_of_ne (by decide)]
    exact absentStack

/-- An image in the tables of the new pages: the entry of the code page is
copied as the load left it, the entry of the stack page changes behind its copy. -/
theorem image_in_tables_misread :
    ∃ start flat after, run Paging.step (boot (fun _ => 0) 8192 (fun _ => 0)
        (fun _ => ⟨fun _ => 0, fun _ => 0⟩) 4096)
        (.map 0xBFBFE000 0x100000 7 :: .map 0x401000 0x100000 7 :: List.replicate 508 .alloc) =
          some start ∧ Loadable start flat tableEntry ∧
      (∀ vaddr mapping, walk start vaddr = some mapping →
        start.pmm.bitmap.test mapping.frame = true) ∧ TablesReached start tableEntry.size ∧
      ramdiskLoad tableDisk [115, 104] start = some (.done after) ∧
      readByte after (userBase + 4) ≠ readByte start (u32 (tableEntry.data + 4)) ∧
      readByte after (userBase + 0) ≠ readByte after (u32 (tableEntry.data + 0)) := by
  obtain ⟨start, flat, booted, represents, sequential, total, stackTable, codeTable, low, inUse⟩ :=
    boot_tables
  have loadable := tableEntry_loadable represents low.identity sequential total
  have address : ∀ index < 5, imageAddress start tableEntry.data index = 0x202FFC + index := by
    intro index less
    rw [imageAddress]
    exact congrArg (Option.getD · 0) (tableEntry_readable represents low.identity less)
  have reached : TablesReached start tableEntry.size :=
    tablesReached_existing (by decide) (low.selfMapped represents)
      (tables_onePage (by decide) stackTable codeTable)
  obtain ⟨after, loads, byte, moved⟩ := tableEntry_loaded loadable address stackTable codeTable
    low.stack low.code
  have found : search tableDisk [115, 104] = some tableEntry := rfl
  rw [← ramdiskLoad_direct represents found (by decide) reached] at loads
  exact ⟨start, flat, after, booted, loadable, walked_marked represents sequential (by omega) inUse,
    reached, loads, byte, moved⟩

/-- The two ways in which the image does not come to its place: a new table whose
page is not mapped, and an image in the tables. -/
theorem image_not_built :
    (∃ start, run Paging.step (boot (fun _ => 0) 8192 (fun _ => 0)
        (fun _ => ⟨fun _ => 0, fun _ => 0⟩) 4096) (List.replicate 510 .alloc) = some start ∧
      Loadable start identityFlat ⟨some [115, 104], 0x100000, 1⟩ ∧
      (∀ vaddr mapping, walk start vaddr = some mapping →
        start.pmm.bitmap.test mapping.frame = true) ∧
      ramdiskLoad oneByteDisk [115, 104] start = some .fault) ∧
    ∃ start flat after, run Paging.step (boot (fun _ => 0) 8192 (fun _ => 0)
        (fun _ => ⟨fun _ => 0, fun _ => 0⟩) 4096)
        (.map 0xBFBFE000 0x100000 7 :: .map 0x401000 0x100000 7 :: List.replicate 508 .alloc) =
          some start ∧ Loadable start flat tableEntry ∧
      (∀ vaddr mapping, walk start vaddr = some mapping →
        start.pmm.bitmap.test mapping.frame = true) ∧ TablesReached start tableEntry.size ∧
      ramdiskLoad tableDisk [115, 104] start = some (.done after) ∧
      readByte after (userBase + 4) ≠ readByte start (u32 (tableEntry.data + 4)) ∧
      readByte after (userBase + 0) ≠ readByte after (u32 (tableEntry.data + 0)) :=
  ⟨new_table_faults, image_in_tables_misread⟩

end

end Helios.Exec
