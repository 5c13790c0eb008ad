import Helios.Exec.Page

namespace Helios.Exec

open Helios.Data Helios.Pmm Helios.Paging

/-! The pages of a load, and what the first of them did to a state. -/

def codePages (size : Nat) : Nat := (size + 4095) / 4096

/-- The pages of a load in the order of their mapping, the stack behind the code. -/
def loadVaddr (size index : Nat) : Nat :=
  if index < codePages size then u32 (userBase + index * 4096) else stackVaddr - 0x1000

def loadBytes (size index : Nat) : Nat :=
  if index < codePages size then chunkSize size (index * 4096) else 0

def loadSlot (size index : Nat) : Nat := pdIndex (loadVaddr size index)

/-- The flat map after the first `count` pages of a load. -/
def loadedFlat (flat : FlatMap) (size : Nat) (frames : Nat → Nat) : Nat → FlatMap
  | 0 => flat
  | count + 1 => Function.update (loadedFlat flat size frames count)
      (pageNumber (loadVaddr size count)) (some ⟨frames count, 1, 1⟩)

/-- The directory slots that need a table for the first `count` pages. -/
def missingSlots (start : PageManager) (size count : Nat) : Finset Nat :=
  ((Finset.range count).image (loadSlot size)).filter fun slot => (directory start).tables slot = 0

/-- A slot got its table for one of the first `count` pages. -/
structure Added (start paging : PageManager) (size count slot : Nat) : Prop where
  empty : (directory start).tables slot = 0
  needed : ∃ index < count, loadSlot size index = slot
  itsUser : user ((directory paging).entries slot) = 1
  fresh : ∃ page, (directory paging).tables slot = page * 4096 ∧
    start.pmm.bitmap.test page = false

/-- The first `count` pages of a load have their frames. -/
structure Placed (start : PageManager) (flat : FlatMap) (size : Nat) (frames : Nat → Nat)
    (count : Nat) (paging : PageManager) : Prop where
  represents : Represents paging (loadedFlat flat size frames count)
  grows : Grows start.pmm paging.pmm
  fresh : ∀ index < count, frames index < start.pmm.totalPages ∧
    start.pmm.bitmap.test (frames index) = false ∧ paging.pmm.bitmap.test (frames index) = true
  untabled : ∀ index < count, ∀ slot, (directory paging).tables slot ≠ frames index * 4096
  tables : ∀ slot, ((directory paging).tables slot = (directory start).tables slot ∧
    (directory paging).entries slot = (directory start).entries slot) ∨
      Added start paging size count slot
  served : ∀ index < count, (directory paging).tables (loadSlot size index) ≠ 0
  untouched : ∀ address, paging.pmm.bitmap.test (address / 4096) = false →
    paging.memory address = start.memory address
  tail : ∀ index < count, ∀ offset < 4096, loadBytes size index ≤ offset →
    paging.memory (frames index * 4096 + offset) = start.memory (frames index * 4096 + offset)

section

variable {start paging after : PageManager} {flat : FlatMap} {frames other : Nat → Nat}
variable {size slot frame table page count index offset : Nat}

theorem lt_codePages : count < codePages size ↔ count * 4096 < size := by
  unfold codePages
  omega

theorem loadVaddr_code (code : count < codePages size) :
    loadVaddr size count = u32 (userBase + count * 4096) := if_pos code

theorem loadBytes_code (code : count < codePages size) :
    loadBytes size count = chunkSize size (count * 4096) := if_pos code

theorem loadVaddr_stack : loadVaddr size (codePages size) = stackVaddr - 0x1000 :=
  if_neg (Nat.lt_irrefl _)

theorem loadBytes_stack : loadBytes size (codePages size) = 0 := if_neg (Nat.lt_irrefl _)

theorem loadSlot_stack : loadSlot size (codePages size) = pdIndex (stackVaddr - 0x1000) := by
  rw [loadSlot, loadVaddr_stack]

theorem loadBytes_le {index : Nat} : loadBytes size index ≤ 4096 := by
  unfold loadBytes
  split
  · exact chunkSize_le
  · omega

theorem loadBytes_eq {index : Nat} (code : index < codePages size) (small : size < 4294967296) :
    loadBytes size index = min 4096 (size - index * 4096) := by
  rw [loadBytes_code code, chunkSize_eq (lt_codePages.mp code) small]

theorem loadBytes_inside (small : size < 4294967296) (short : offset < loadBytes size index) :
    index * 4096 + offset < size := by
  by_cases code : index < codePages size
  · rw [loadBytes_eq code small] at short
    omega
  · simp [loadBytes, code] at short

theorem loadVaddr_aligned {index : Nat} : loadVaddr size index % 4096 = 0 := by
  unfold loadVaddr
  split
  · exact u32_aligned (by omega)
  · decide

theorem loadVaddr_lt {index : Nat} : loadVaddr size index < 4294967296 := by
  unfold loadVaddr
  split
  · exact u32_lt _
  · decide

theorem pdIndex_of_page {vaddr other : Nat} (same : pageNumber vaddr = pageNumber other) :
    pdIndex vaddr = pdIndex other := by
  rw [pdIndex_eq, pdIndex_eq, same]

theorem pageNumber_code {index : Nat} (code : index < codePages size) :
    pageNumber (loadVaddr size index) = (1024 + index) % 1048576 := by
  rw [loadVaddr_code code, pageNumber, u32_of_lt (u32_lt _), u32, userBase]
  omega

theorem pageNumber_stack : pageNumber (loadVaddr size (codePages size)) = 0xBFBFF := by
  rw [loadVaddr_stack]
  decide

theorem pageNumber_offset {index offset : Nat} (inside : offset < 4096) :
    pageNumber (loadVaddr size index + offset) = pageNumber (loadVaddr size index) := by
  have aligned := @loadVaddr_aligned size index
  have small := @loadVaddr_lt size index
  rw [pageNumber, pageNumber, u32_of_lt (by omega), u32_of_lt small]
  omega

theorem code_apart (small : codePages size < 1048576) {index later : Nat} (less : index < later)
    (below : later < codePages size) :
    pageNumber (loadVaddr size later) ≠ pageNumber (loadVaddr size index) := by
  rw [pageNumber_code below, pageNumber_code (by omega)]
  omega

theorem loadedFlat_congr (same : ∀ index < count, frames index = other index) :
    loadedFlat flat size frames count = loadedFlat flat size other count := by
  induction count with
  | zero => rfl
  | succ count ih =>
      rw [loadedFlat, loadedFlat, same count (Nat.lt_succ_self count),
        ih fun index less => same index (Nat.lt_succ_of_lt less)]

/-- A page is mapped to the frame of its last loading, or as before. -/
theorem loadedFlat_cases (flat : FlatMap) (size : Nat) (frames : Nat → Nat) (count page : Nat) :
    (∃ index < count, pageNumber (loadVaddr size index) = page ∧
        (∀ later < count, index < later → pageNumber (loadVaddr size later) ≠ page) ∧
        loadedFlat flat size frames count page = some ⟨frames index, 1, 1⟩) ∨
      (∀ index < count, pageNumber (loadVaddr size index) ≠ page) ∧
        loadedFlat flat size frames count page = flat page := by
  induction count with
  | zero => exact .inr ⟨fun index less => absurd less (Nat.not_lt_zero index), rfl⟩
  | succ count ih =>
      rw [loadedFlat]
      by_cases here : pageNumber (loadVaddr size count) = page
      · refine .inl ⟨count, Nat.lt_succ_self count, here, fun later less more => by omega, ?_⟩
        rw [here]
        exact Function.update_self ..
      · rw [Function.update_of_ne (Ne.symm here)]
        cases ih with
        | inl earlier =>
            obtain ⟨index, less, same, last, mapped⟩ := earlier
            refine .inl ⟨index, by omega, same, fun later below more => ?_, mapped⟩
            by_cases newest : later = count
            · rw [newest]
              exact here
            · exact last later (by omega) more
        | inr untouched =>
            refine .inr ⟨fun index less => ?_, untouched.2⟩
            by_cases newest : index = count
            · rw [newest]
              exact here
            · exact untouched.1 index (by omega)

theorem loadedFlat_last {index : Nat} (less : index < count)
    (last : ∀ later < count, index < later →
      pageNumber (loadVaddr size later) ≠ pageNumber (loadVaddr size index)) :
    loadedFlat flat size frames count (pageNumber (loadVaddr size index)) =
      some ⟨frames index, 1, 1⟩ := by
  cases loadedFlat_cases flat size frames count (pageNumber (loadVaddr size index)) with
  | inl mapped =>
      obtain ⟨other, below, same, newest, result⟩ := mapped
      by_cases before : index < other
      · exact absurd same (last other below before)
      · by_cases after : other < index
        · exact absurd rfl (newest index less after)
        · rw [result, show other = index by omega]
  | inr untouched => exact absurd rfl (untouched.1 index less)

theorem Placed.empty_iff (placed : Placed start flat size frames count paging) (slot : Nat) :
    (directory paging).tables slot = 0 ↔ (directory start).tables slot = 0 ∧
      ∀ index < count, loadSlot size index ≠ slot := by
  constructor
  · intro empty
    have unserved : ∀ index < count, loadSlot size index ≠ slot := by
      intro index less same
      subst same
      exact placed.served index less empty
    cases placed.tables slot with
    | inl same => exact ⟨same.1 ▸ empty, unserved⟩
    | inr added => exact ⟨added.empty, unserved⟩
  · intro empty
    cases placed.tables slot with
    | inl same => rw [same.1, empty.1]
    | inr added =>
        obtain ⟨index, less, same⟩ := added.needed
        exact absurd same (empty.2 index less)

theorem mem_missingSlots {slot : Nat} : slot ∈ missingSlots start size count ↔
    (directory start).tables slot = 0 ∧ ∃ index < count, loadSlot size index = slot := by
  simp only [missingSlots, Finset.mem_filter, Finset.mem_image, Finset.mem_range]
  exact and_comm

theorem card_missingSlots_le : (missingSlots start size count).card ≤ count :=
  calc (missingSlots start size count).card
    _ ≤ ((Finset.range count).image (loadSlot size)).card := Finset.card_filter_le ..
    _ ≤ (Finset.range count).card := Finset.card_image_le
    _ = count := Finset.card_range count

theorem card_missingSlots_mono {first second : Nat} (ordered : first ≤ second) :
    (missingSlots start size first).card ≤ (missingSlots start size second).card := by
  apply Finset.card_le_card
  intro slot member
  obtain ⟨empty, index, less, same⟩ := mem_missingSlots.mp member
  exact mem_missingSlots.mpr ⟨empty, index, by omega, same⟩

theorem card_missingSlots_new (empty : (directory start).tables (loadSlot size count) = 0)
    (unserved : ∀ index < count, loadSlot size index ≠ loadSlot size count) :
    (missingSlots start size (count + 1)).card = (missingSlots start size count).card + 1 := by
  rw [missingSlots, Finset.range_add_one, Finset.image_insert, Finset.filter_insert, if_pos empty,
    ← missingSlots]
  apply Finset.card_insert_of_notMem
  intro member
  obtain ⟨_, index, less, same⟩ := mem_missingSlots.mp member
  exact unserved index less same

theorem missingSlots_old (served : (directory start).tables (loadSlot size count) ≠ 0 ∨
      ∃ index < count, loadSlot size index = loadSlot size count) :
    missingSlots start size (count + 1) = missingSlots start size count := by
  rw [missingSlots, Finset.range_add_one, Finset.image_insert, Finset.filter_insert, ← missingSlots]
  by_cases empty : (directory start).tables (loadSlot size count) = 0
  · rw [if_pos empty]
    exact Finset.insert_eq_of_mem (mem_missingSlots.mpr ⟨empty, served.resolve_left (by simp [empty])⟩)
  · rw [if_neg empty]

theorem Placed.card_missingSlots (placed : Placed start flat size frames count paging) :
    (missingSlots start size (count + 1)).card = (missingSlots start size count).card +
      if (directory paging).tables (loadSlot size count) = 0 then 1 else 0 := by
  by_cases unserved : (directory paging).tables (loadSlot size count) = 0
  · obtain ⟨empty, fresh⟩ := (placed.empty_iff _).mp unserved
    rw [if_pos unserved, card_missingSlots_new empty fresh]
  · rw [if_neg unserved, missingSlots_old, Nat.add_zero]
    by_contra both
    rw [not_or, not_not] at both
    exact unserved ((placed.empty_iff _).mpr ⟨both.1, fun index less same => both.2 ⟨index, less, same⟩⟩)

/-- The page that is loaded next. -/
abbrev NextPage (paging after : PageManager) (flat : FlatMap) (size : Nat) (frames : Nat → Nat)
    (count frame table : Nat) : Prop :=
  PageLoaded paging after (loadedFlat flat size frames count) (loadVaddr size count)
    (loadBytes size count) frame table

theorem Placed.unused (placed : Placed start flat size frames count paging)
    (clear : paging.pmm.bitmap.test page = false) : start.pmm.bitmap.test page = false := by
  by_contra used
  rw [placed.grows.used page (by simpa using used)] at clear
  cases clear

theorem Added.later (added : Added start paging size count slot)
    (sameTable : (directory after).tables slot = (directory paging).tables slot)
    (sameEntry : (directory after).entries slot = (directory paging).entries slot) :
    Added start after size (count + 1) slot := by
  obtain ⟨index, less, same⟩ := added.needed
  refine ⟨added.empty, ⟨index, by omega, same⟩, ?_, ?_⟩
  · rw [sameEntry]
    exact added.itsUser
  · rw [sameTable]
    exact added.fresh

theorem Placed.tables_step (placed : Placed start flat size frames count paging)
    (loaded : NextPage paging after flat size frames count frame table) (slot : Nat) :
    ((directory after).tables slot = (directory start).tables slot ∧
      (directory after).entries slot = (directory start).entries slot) ∨
        Added start after size (count + 1) slot := by
  have keep : (directory after).tables slot = (directory paging).tables slot →
      (directory after).entries slot = (directory paging).entries slot →
      ((directory after).tables slot = (directory start).tables slot ∧
        (directory after).entries slot = (directory start).entries slot) ∨
          Added start after size (count + 1) slot := by
    intro sameTable sameEntry
    cases placed.tables slot with
    | inl old => exact .inl ⟨sameTable.trans old.1, sameEntry.trans old.2⟩
    | inr added => exact .inr (added.later sameTable sameEntry)
  by_cases here : slot = loadSlot size count
  · cases loaded.supply with
    | existing there notNull pmm same => exact keep (by rw [same]) (by rw [same])
    | created empty notNull inside clear pmm word itsUser added =>
        rw [take_bitmap, Bitmap.test_set, Bool.or_eq_false_iff] at clear
        rw [here]
        refine .inr ⟨((placed.empty_iff _).mp empty).1, ⟨count, Nat.lt_succ_self count, rfl⟩, ?_,
          table, loaded.supply.here.1, placed.unused clear.2⟩
        rw [added]
        simp only [Directory.addTable, loadSlot, Function.update_self, itsUser]
        decide
  · exact keep (loaded.supply.tables_other here) (loaded.supply.entries_other here)

theorem Placed.untabled_step (placed : Placed start flat size frames count paging)
    (loaded : NextPage paging after flat size frames count frame table) {index : Nat}
    (less : index < count) (slot : Nat) : (directory after).tables slot ≠ frames index * 4096 := by
  apply loaded.supply.untabled
  · rw [take_bitmap, Bitmap.test_set, (placed.fresh index less).2.2, Bool.or_true]
  · exact placed.untabled index less

theorem Placed.served_step (placed : Placed start flat size frames count paging)
    (loaded : NextPage paging after flat size frames count frame table) {index : Nat}
    (less : index < count + 1) : (directory after).tables (loadSlot size index) ≠ 0 := by
  by_cases last : index = count
  · obtain ⟨here, notNull⟩ := loaded.supply.here
    rw [last, loadSlot, here]
    exact notNull
  · have earlier := placed.served index (by omega)
    rw [loaded.supply.kept earlier]
    exact earlier

theorem Placed.untouched_step (placed : Placed start flat size frames count paging)
    (loaded : NextPage paging after flat size frames count frame table) {address : Nat}
    (clear : after.pmm.bitmap.test (address / 4096) = false) :
    after.memory address = start.memory address := by
  have notTable : address / 4096 ≠ table := by
    intro same
    rw [same, loaded.table_used] at clear
    cases clear
  have notFrame : address / 4096 ≠ frame := by
    intro same
    rw [same, loaded.marked] at clear
    cases clear
  have before : paging.pmm.bitmap.test (address / 4096) = false := by
    by_contra used
    rw [loaded.grows.used _ (by simpa using used)] at clear
    cases clear
  rw [loaded.memory_other loadBytes_le notTable notFrame, placed.untouched address before]

/-- The frames of the earlier pages are left alone. -/
theorem Placed.frame_kept (placed : Placed start flat size frames count paging)
    (loaded : NextPage paging after flat size frames count frame table) {index offset : Nat}
    (less : index < count) (inside : offset < 4096) :
    after.memory (frames index * 4096 + offset) = paging.memory (frames index * 4096 + offset) := by
  have whole : (frames index * 4096 + offset) / 4096 = frames index := by omega
  apply loaded.memory_other loadBytes_le
  · rw [whole]
    intro same
    have apart := placed.untabled_step loaded less (loadSlot size count)
    rw [loadSlot, loaded.supply.here.1, same] at apart
    exact apart rfl
  · rw [whole]
    intro same
    have clear := loaded.clear
    rw [← same, (placed.fresh index less).2.2] at clear
    cases clear

theorem Placed.tail_last (placed : Placed start flat size frames count paging)
    (loaded : NextPage paging after flat size frames count frame table) {offset : Nat}
    (inside : offset < 4096) (uncopied : loadBytes size count ≤ offset) :
    after.memory (frame * 4096 + offset) = start.memory (frame * 4096 + offset) := by
  have whole : (frame * 4096 + offset) / 4096 = frame := by omega
  have different := loaded.apart
  rw [loaded.memory _ (by omega) (by omega), placed.untouched]
  rw [whole]
  exact loaded.clear

theorem Placed.step (placed : Placed start flat size frames count paging)
    (loaded : NextPage paging after flat size frames count frame table) :
    Placed start flat size (Function.update frames count frame) (count + 1) after := by
  have before : ∀ index < count, Function.update frames count frame index = frames index :=
    fun index less => Function.update_of_ne (by omega) ..
  have last : Function.update frames count frame count = frame := Function.update_self ..
  constructor
  · rw [loadedFlat, last, loadedFlat_congr before]
    exact loaded.represents
  · exact placed.grows.trans loaded.grows
  · intro index less
    by_cases here : index = count
    · rw [here, last]
      exact ⟨placed.grows.totalPages ▸ loaded.inside, placed.unused loaded.clear, loaded.marked⟩
    · rw [before index (by omega)]
      obtain ⟨inside, clear, marked⟩ := placed.fresh index (by omega)
      exact ⟨inside, clear, loaded.grows.used _ marked⟩
  · intro index less slot
    by_cases here : index = count
    · rw [here, last]
      exact loaded.untabled placed.represents slot
    · rw [before index (by omega)]
      exact placed.untabled_step loaded (by omega) slot
  · exact placed.tables_step loaded
  · intro index less
    exact placed.served_step loaded less
  · intro address clear
    exact placed.untouched_step loaded clear
  · intro index less offset inside uncopied
    by_cases here : index = count
    · rw [here] at uncopied ⊢
      rw [last]
      exact placed.tail_last loaded inside uncopied
    · rw [before index (by omega)]
      rw [placed.frame_kept loaded (by omega) inside]
      exact placed.tail index (by omega) offset inside uncopied

theorem placed_start (represents : Represents start flat) :
    Placed start flat size frames 0 start := by
  refine ⟨represents, Grows.refl, ?_, ?_, fun _ => .inl ⟨rfl, rfl⟩, ?_, fun _ _ => rfl, ?_⟩
  · intro index less
    exact absurd less (Nat.not_lt_zero index)
  · intro index less
    exact absurd less (Nat.not_lt_zero index)
  · intro index less
    exact absurd less (Nat.not_lt_zero index)
  · intro index less
    exact absurd less (Nat.not_lt_zero index)

/-- Frames that are taken later do not matter. -/
theorem Placed.grow {pmm : PmmManager} (placed : Placed start flat size frames count paging)
    (grows : Grows paging.pmm pmm) :
    Placed start flat size frames count { paging with pmm } := by
  refine ⟨placed.represents.grow grows, placed.grows.trans grows, fun index less => ?_,
    placed.untabled, fun slot => ?_, placed.served, fun address clear => placed.untouched address ?_,
    placed.tail⟩
  · obtain ⟨inside, clear, marked⟩ := placed.fresh index less
    exact ⟨inside, clear, grows.used _ marked⟩
  · cases placed.tables slot with
    | inl same => exact .inl same
    | inr added => exact .inr ⟨added.empty, added.needed, added.itsUser, added.fresh⟩
  · by_contra used
    have still : pmm.bitmap.test (address / 4096) = true := grows.used _ (by simpa using used)
    rw [still] at clear
    cases clear

end

end Helios.Exec
