import Helios.Paging.Model

namespace Helios.Paging

open Helios.Data Helios.Pmm

/-! The two-level directory as a flat map from page numbers.

The functions are the `Direct` ones here: their stores land in the frames of
the tables. -/

section

variable {word flags target value vaddr : Nat}

theorem flagBit_mod {flag : Nat} : flagBit flags flag % 2 ^ 1 = flagBit flags flag := by
  unfold flagBit
  split <;> rfl

theorem present_fillEntry : present (fillEntry word flags target) = 1 := by
  simp only [present, fillEntry, setFrame, setUser, setRw, setPresent]
  rw [field_setField_other (by omega), field_setField_other (by omega),
    field_setField_other (by omega), field_setField_same]
  rfl

theorem frame_fillEntry : frame (fillEntry word flags target) = target % 2 ^ 20 := by
  simp only [frame, fillEntry, setFrame]
  rw [field_setField_same]

theorem user_fillEntry : user (fillEntry word flags target) = flagBit flags pageUser := by
  simp only [user, fillEntry, setFrame, setUser]
  rw [field_setField_other (by omega), field_setField_same, flagBit_mod]

theorem rw_fillEntry : rw (fillEntry word flags target) = flagBit flags pageRw := by
  simp only [rw, fillEntry, setFrame, setUser, setRw]
  rw [field_setField_other (by omega), field_setField_other (by omega), field_setField_same,
    flagBit_mod]

theorem decode_fillEntry : decode (fillEntry word flags target) =
    some ⟨target % 2 ^ 20, flagBit flags pageRw, flagBit flags pageUser⟩ := by
  simp [decode, present_fillEntry, frame_fillEntry, rw_fillEntry, user_fillEntry]

theorem fillEntry_lt (small : word < 4294967296) : fillEntry word flags target < 4294967296 := by
  have start : word < 2 ^ 32 := small
  exact setField_lt (setField_lt (setField_lt (setField_lt start (by decide)) (by decide))
    (by decide)) (by decide)

/-- The entry that `init_paging` writes over a zero word. -/
def identityEntry (target : Nat) : Nat := setFrame (setRw (setPresent 0 1) 1) target

theorem present_identityEntry : present (identityEntry target) = 1 := by
  simp only [present, identityEntry, setFrame, setRw, setPresent]
  rw [field_setField_other (by omega), field_setField_other (by omega), field_setField_same]
  rfl

theorem frame_identityEntry : frame (identityEntry target) = target % 2 ^ 20 := by
  simp only [frame, identityEntry, setFrame]
  rw [field_setField_same]

theorem user_identityEntry : user (identityEntry target) = 0 := by
  simp only [user, identityEntry, setFrame, setRw, setPresent]
  rw [field_setField_other (by omega), field_setField_other (by omega),
    field_setField_other (by omega), field_zero]

theorem decode_identityEntry : decode (identityEntry target) = some ⟨target % 2 ^ 20, 1, 0⟩ := by
  have itsRw : rw (identityEntry target) = 1 := by
    simp only [rw, identityEntry, setFrame, setRw]
    rw [field_setField_other (by omega), field_setField_same]
    rfl
  simp [decode, present_identityEntry, frame_identityEntry, itsRw, user_identityEntry]

theorem identityEntry_lt : identityEntry target < 4294967296 := by
  have start : 0 < 2 ^ 32 := by decide
  exact setField_lt (setField_lt (setField_lt start (by decide)) (by decide)) (by decide)

theorem decode_unmapped : decode (setFrame (setPresent word 0) 0) = none := by
  have isAbsent : present (setFrame (setPresent word 0) 0) = 0 := by
    simp only [present, setFrame, setPresent]
    rw [field_setField_other (by omega), field_setField_same]
    rfl
  simp [decode, isAbsent]

theorem unmapped_lt (small : word < 4294967296) :
    setFrame (setPresent word 0) 0 < 4294967296 := by
  have start : word < 2 ^ 32 := small
  exact setField_lt (setField_lt start (by decide)) (by decide)

theorem decode_zero : decode 0 = none := by
  simp [decode, present, field_zero]

def pageNumber (vaddr : Nat) : Nat := u32 vaddr / 4096

theorem pdIndex_eq : pdIndex vaddr = pageNumber vaddr / 1024 := by
  rw [pdIndex, pageNumber, Nat.shiftRight_eq_div_pow, Nat.div_div_eq_div_mul]

theorem ptIndex_eq : ptIndex vaddr = pageNumber vaddr % 1024 := by
  rw [ptIndex, pageNumber, Nat.shiftRight_eq_div_pow]
  exact Nat.and_two_pow_sub_one_eq_mod _ 10

theorem ptIndex_lt : ptIndex vaddr < 1024 := by
  rw [ptIndex_eq]
  omega

theorem pageNumber_eq : pdIndex vaddr * 1024 + ptIndex vaddr = pageNumber vaddr := by
  rw [pdIndex_eq, ptIndex_eq]
  omega

end

/-- The abstract page directory: what each page number maps to. -/
abbrev FlatMap := Nat → Option Mapping

/-- The low four megabytes mapped to themselves. -/
def identityFlat : FlatMap := fun page => if page < 1024 then some ⟨page, 1, 0⟩ else none

def flatStep (flat : FlatMap) : Op → FlatMap
  | .map vaddr paddr flags => Function.update flat (pageNumber vaddr)
      (some ⟨u32 paddr >>> 12, flagBit flags pageRw, flagBit flags pageUser⟩)
  | .unmap vaddr => Function.update flat (pageNumber vaddr) none
  | .alloc => flat

/-- The entry of a table, or nothing where the directory has no table. -/
def lookup (paging : PageManager) (slot index : Nat) : Option Mapping :=
  if (directory paging).tables slot = 0 then none
  else decode (entryWord paging.memory ((directory paging).tables slot) index)

/-- The current directory represents `flat`: its tables are distinct used
frames, its entries describe them, and their words hold the map. -/
structure Represents (paging : PageManager) (flat : FlatMap) : Prop where
  bounded : paging.pmm.totalPages ≤ 1048576
  nullUsed : paging.pmm.bitmap.test 0 = true
  tables : ∀ slot, (directory paging).tables slot ≠ 0 → ∃ page,
    (directory paging).tables slot = page * 4096 ∧ page < paging.pmm.totalPages ∧
      paging.pmm.bitmap.test page = true
  distinct : ∀ slot other, (directory paging).tables slot ≠ 0 →
    (directory paging).tables slot = (directory paging).tables other → slot = other
  absent : ∀ slot, (directory paging).tables slot = 0 →
    present ((directory paging).entries slot) = 0
  entry : ∀ slot, (directory paging).tables slot ≠ 0 →
    present ((directory paging).entries slot) = 1 ∧
      frame ((directory paging).entries slot) * 4096 = (directory paging).tables slot
  contents : ∀ slot index, index < 1024 → lookup paging slot index = flat (slot * 1024 + index)

/-- A page directory that `map_page` may have filled: its tables are distinct
used frames, and its entries describe them. -/
structure Wired (pmm : PmmManager) (dir : Directory) : Prop where
  tables : ∀ slot, dir.tables slot ≠ 0 → ∃ page,
    dir.tables slot = page * 4096 ∧ page < pmm.totalPages ∧ pmm.bitmap.test page = true
  distinct : ∀ slot other, dir.tables slot ≠ 0 → dir.tables slot = dir.tables other → slot = other
  absent : ∀ slot, dir.tables slot = 0 → present (dir.entries slot) = 0
  entry : ∀ slot, dir.tables slot ≠ 0 →
    present (dir.entries slot) = 1 ∧ frame (dir.entries slot) * 4096 = dir.tables slot

section

variable {paging : PageManager} {flat : FlatMap} {slot other index flags table vaddr paddr : Nat}

theorem Represents.wired (represents : Represents paging flat) :
    Wired paging.pmm (directory paging) :=
  ⟨represents.tables, represents.distinct, represents.absent, represents.entry⟩

theorem directory_pmm {pmm : PmmManager} : directory { paging with pmm } = directory paging := rfl

theorem Represents.walk_eq (represents : Represents paging flat) :
    walk paging vaddr = flat (pageNumber vaddr) := by
  have found := represents.contents (pdIndex vaddr) (ptIndex vaddr) ptIndex_lt
  rw [pageNumber_eq] at found
  rw [← found, walk, lookup]
  by_cases missing : (directory paging).tables (pdIndex vaddr) = 0
  · simp [missing, represents.absent _ missing]
  · obtain ⟨isPresent, address⟩ := represents.entry _ missing
    simp [missing, isPresent, address]

/-- Tables are whole frames, so an entry of one is apart from the other ones. -/
theorem Represents.apart (represents : Represents paging flat)
    (here : (directory paging).tables slot ≠ 0) (there : (directory paging).tables other ≠ 0)
    (different : slot ≠ other) :
    (directory paging).tables slot + 4096 ≤ (directory paging).tables other ∨
      (directory paging).tables other + 4096 ≤ (directory paging).tables slot := by
  obtain ⟨page, address, _⟩ := represents.tables slot here
  obtain ⟨otherPage, otherAddress, _⟩ := represents.tables other there
  have notSame : (directory paging).tables slot ≠ (directory paging).tables other :=
    fun same => different (represents.distinct slot other here same)
  omega

theorem Represents.store (represents : Represents paging flat) {word : Nat}
    (here : (directory paging).tables slot ≠ 0) (inside : index < 1024) (small : word < 4294967296) :
    Represents { paging with
      memory := setEntryWord paging.memory ((directory paging).tables slot) index word }
      (Function.update flat (slot * 1024 + index) (decode word)) := by
  refine ⟨represents.bounded, represents.nullUsed, represents.tables, represents.distinct,
    represents.absent, represents.entry, ?_⟩
  intro other position within
  have old := represents.contents other position within
  show (if (directory paging).tables other = 0 then none else
    decode (entryWord (setEntryWord paging.memory ((directory paging).tables slot) index word)
      ((directory paging).tables other) position)) = _
  simp only [lookup] at old
  by_cases missing : (directory paging).tables other = 0
  · have different : other ≠ slot := fun same => here (same ▸ missing)
    rw [if_pos missing] at old ⊢
    rw [Function.update_of_ne (by omega)]
    exact old
  · rw [if_neg missing] at old ⊢
    by_cases same : other = slot
    · subst same
      by_cases entry : position = index
      · subst entry
        rw [Function.update_self, entryWord, setEntryWord, Memory.load32_store32_same small]
      · rw [Function.update_of_ne (by omega), entryWord, setEntryWord,
          Memory.load32_store32_other (by omega)]
        exact old
    · have separate := represents.apart here missing (Ne.symm same)
      rw [Function.update_of_ne (by omega), entryWord, setEntryWord,
        Memory.load32_store32_other (by omega)]
      exact old

/-- What the allocator does to its bitmap while frames are only taken. -/
structure Grows (before after : PmmManager) : Prop where
  totalPages : after.totalPages = before.totalPages
  used : ∀ page, before.bitmap.test page = true → after.bitmap.test page = true

theorem take_grows {pmm : PmmManager} {page : Nat} : Grows pmm (take pmm page) := by
  refine ⟨take_totalPages, fun used marked => ?_⟩
  rw [take_bitmap, Bitmap.test_set, marked, Bool.or_true]

theorem Grows.refl {first : PmmManager} : Grows first first := ⟨rfl, fun _ marked => marked⟩

theorem Grows.trans {first second third : PmmManager} (before : Grows first second) (later : Grows second third) :
    Grows first third :=
  ⟨later.totalPages.trans before.totalPages,
    fun page marked => later.used page (before.used page marked)⟩

theorem allocFrame_grows {pmm : PmmManager} : Grows pmm (allocFrame pmm).1 := by
  cases allocFrame_cases pmm with
  | inl failed =>
      rw [failed.1]
      exact Grows.refl
  | inr taken =>
      obtain ⟨page, _, _, _, result⟩ := taken
      rw [result]
      exact take_grows

theorem Wired.grow {before after : PmmManager} {dir : Directory} (wired : Wired before dir)
    (grows : Grows before after) : Wired after dir := by
  refine ⟨fun slot here => ?_, wired.distinct, wired.absent, wired.entry⟩
  obtain ⟨page, address, inside, marked⟩ := wired.tables slot here
  exact ⟨page, address, grows.totalPages ▸ inside, grows.used page marked⟩

/-- Frames taken for other purposes leave the directory alone. -/
theorem Represents.grow (represents : Represents paging flat) {pmm : PmmManager}
    (grows : Grows paging.pmm pmm) : Represents { paging with pmm } flat := by
  have wired := represents.wired.grow grows
  refine ⟨?_, grows.used 0 represents.nullUsed, wired.tables, wired.distinct, wired.absent,
    wired.entry, represents.contents⟩
  have bounded := represents.bounded
  rw [← grows.totalPages] at bounded
  exact bounded

theorem Represents.alloc (represents : Represents paging flat) :
    Represents { paging with pmm := (allocFrame paging.pmm).1 } flat := by
  cases allocFrame_fresh represents.bounded represents.nullUsed with
  | inl failed =>
      rw [failed]
      exact represents
  | inr taken =>
      obtain ⟨page, _, _, _, result, _⟩ := taken
      rw [result]
      exact represents.grow take_grows

theorem directory_setDirectory {pmm : PmmManager} {memory : Memory} {dir : Directory} :
    directory (setDirectory { paging with pmm, memory } (activeDir paging) dir) = dir := by
  exact Function.update_self ..

/-- The directory with a table in the frame `page` for `slot`. -/
def Directory.addTable (dir : Directory) (slot word page : Nat) : Directory where
  entries := Function.update dir.entries slot word
  tables := Function.update dir.tables slot (page * 4096)

theorem Wired.apart {pmm : PmmManager} {dir : Directory} {page : Nat} (wired : Wired pmm dir)
    (clear : pmm.bitmap.test page = false) (there : dir.tables other ≠ 0) :
    dir.tables other + 4096 ≤ page * 4096 ∨ page * 4096 + 4096 ≤ dir.tables other := by
  obtain ⟨used, address, _, marked⟩ := wired.tables other there
  have different : used ≠ page := by
    intro same
    rw [same, clear] at marked
    cases marked
  omega

theorem Wired.addTable {before after : PmmManager} {dir : Directory} {page word : Nat}
    (wired : Wired before dir) (grows : Grows before after) (inside : page < before.totalPages)
    (clear : before.bitmap.test page = false) (marked : after.bitmap.test page = true)
    (notNull : page * 4096 ≠ 0) (isPresent : present word = 1) (itsFrame : frame word = page) :
    Wired after (dir.addTable slot word page) := by
  have grown := wired.grow grows
  constructor
  · intro other there
    by_cases same : other = slot
    · subst same
      exact ⟨page, Function.update_self .., grows.totalPages ▸ inside, marked⟩
    · simp only [Directory.addTable, Function.update_of_ne same] at there ⊢
      exact grown.tables other there
  · intro first second here same
    simp only [Directory.addTable] at here same
    by_cases atFirst : first = slot
    · by_cases atSecond : second = slot
      · rw [atFirst, atSecond]
      · rw [atFirst, Function.update_self, Function.update_of_ne atSecond] at same
        have there := wired.apart clear (show dir.tables second ≠ 0 by rw [← same]; exact notNull)
        omega
    · rw [Function.update_of_ne atFirst] at here same
      by_cases atSecond : second = slot
      · rw [atSecond, Function.update_self] at same
        have there := wired.apart clear here
        omega
      · rw [Function.update_of_ne atSecond] at same
        exact wired.distinct first second here same
  · intro other missing
    by_cases same : other = slot
    · simp only [Directory.addTable, same, Function.update_self] at missing
      exact absurd missing notNull
    · simp only [Directory.addTable, Function.update_of_ne same] at missing ⊢
      exact wired.absent other missing
  · intro other there
    by_cases same : other = slot
    · simp only [Directory.addTable, same, Function.update_self, isPresent, itsFrame, and_self]
    · simp only [Directory.addTable, Function.update_of_ne same] at there ⊢
      exact wired.entry other there

theorem Represents.newTable (represents : Represents paging flat) {pmm : PmmManager}
    {page word : Nat} (grows : Grows paging.pmm pmm) (inside : page < paging.pmm.totalPages)
    (clear : paging.pmm.bitmap.test page = false) (marked : pmm.bitmap.test page = true)
    (notNull : page * 4096 ≠ 0) (empty : (directory paging).tables slot = 0)
    (isPresent : present word = 1) (itsFrame : frame word = page) :
    Represents (setDirectory
      { paging with pmm, memory := paging.memory.fill (page * 4096) 4096 0 } (activeDir paging)
      ((directory paging).addTable slot word page)) flat := by
  have changed : directory (setDirectory
      { paging with pmm, memory := paging.memory.fill (page * 4096) 4096 0 } (activeDir paging)
      ((directory paging).addTable slot word page)) = (directory paging).addTable slot word page :=
    directory_setDirectory
  have grown := represents.grow grows
  have wired : Wired pmm ((directory paging).addTable slot word page) :=
    represents.wired.addTable grows inside clear marked notNull isPresent itsFrame
  rw [← changed] at wired
  refine ⟨grown.bounded, grown.nullUsed, wired.tables, wired.distinct, wired.absent, wired.entry, ?_⟩
  intro other index within
  have old := represents.contents other index within
  rw [lookup, changed]
  simp only [lookup] at old
  by_cases same : other = slot
  · rw [same, if_pos empty] at old
    simp only [Directory.addTable, same, ← old, Function.update_self, if_neg notNull]
    show decode (entryWord (paging.memory.fill (page * 4096) 4096 0) (page * 4096) index) = none
    rw [entryWord, Memory.load32_fill_zero (by omega) (by omega), decode_zero]
  · simp only [Directory.addTable, Function.update_of_ne same]
    by_cases missing : (directory paging).tables other = 0
    · rw [if_pos missing] at old ⊢
      exact old
    · have separate := represents.wired.apart clear missing
      rw [if_neg missing] at old ⊢
      rw [← old]
      show decode (entryWord (paging.memory.fill (page * 4096) 4096 0)
        ((directory paging).tables other) index) = _
      rw [entryWord, Memory.load32_fill_other (by omega)]
      rfl

/-- `map_page` finds a table, or a frame to make one. -/
def Supplied (paging : PageManager) : Op → Prop
  | .map vaddr _ _ => (directory paging).tables (pdIndex vaddr) ≠ 0 ∨ (allocFrame paging.pmm).2 ≠ 0
  | _ => True

instance (paging : PageManager) (op : Op) : Decidable (Supplied paging op) :=
  match op with
  | .map vaddr _ _ => inferInstanceAs (Decidable
      ((directory paging).tables (pdIndex vaddr) ≠ 0 ∨ (allocFrame paging.pmm).2 ≠ 0))
  | .unmap _ => .isTrue trivial
  | .alloc => .isTrue trivial

theorem ensureTable_existing (here : (directory paging).tables slot ≠ 0) :
    Direct.ensureTable paging slot flags = (paging, (directory paging).tables slot) := by
  simp [Direct.ensureTable, here]

theorem ensureTable_failed (empty : (directory paging).tables slot = 0)
    (failed : allocFrame paging.pmm = (paging.pmm, 0)) :
    Direct.ensureTable paging slot flags = (paging, 0) := by
  simp [Direct.ensureTable, Direct.createPageTable, empty, failed]

theorem ensureTable_created {pmm : PmmManager} (empty : (directory paging).tables slot = 0)
    (result : allocFrame paging.pmm = (pmm, table)) (notNull : table ≠ 0) :
    Direct.ensureTable paging slot flags =
      (setDirectory { paging with pmm, memory := paging.memory.fill table 4096 0 }
        (activeDir paging)
        { entries := Function.update (directory paging).entries slot
            (fillEntry ((directory paging).entries slot) flags (table >>> 12))
          tables := Function.update (directory paging).tables slot table }, table) := by
  simp only [Direct.ensureTable, Direct.createPageTable, empty, result, notNull, ne_eq,
    not_true_eq_false, if_false]
  rfl

theorem mapPage_existing (pmm : PmmManager) (paddr flags : Nat)
    (here : (directory paging).tables (pdIndex vaddr) ≠ 0) :
    (Direct.mapPage { paging with pmm } vaddr paddr flags).pmm = pmm ∧
      (directory (Direct.mapPage { paging with pmm } vaddr paddr flags)).tables =
        (directory paging).tables := by
  have there : (directory { paging with pmm }).tables (pdIndex vaddr) ≠ 0 := here
  rw [Direct.mapPage, ensureTable_existing there]
  simp only [there, if_false]
  exact ⟨trivial, rfl⟩

theorem mapPage_created {pmm last : PmmManager} (paddr flags : Nat)
    (empty : (directory paging).tables (pdIndex vaddr) = 0)
    (result : allocFrame pmm = (last, table)) (notNull : table ≠ 0) :
    (Direct.mapPage { paging with pmm } vaddr paddr flags).pmm = last ∧
      (directory (Direct.mapPage { paging with pmm } vaddr paddr flags)).tables =
        Function.update (directory paging).tables (pdIndex vaddr) table := by
  have missing : (directory { paging with pmm }).tables (pdIndex vaddr) = 0 := empty
  rw [Direct.mapPage, ensureTable_created missing result notNull]
  simp only [notNull, if_false]
  exact ⟨rfl, congrArg Directory.tables directory_setDirectory⟩

theorem Represents.ensureTable_cases (represents : Represents paging flat) (slot flags : Nat) :
    ((directory paging).tables slot = 0 ∧ allocFrame paging.pmm = (paging.pmm, 0) ∧
        Direct.ensureTable paging slot flags = (paging, 0)) ∨
      ∃ after table, Direct.ensureTable paging slot flags = (after, table) ∧ table ≠ 0 ∧
        (directory after).tables slot = table ∧ Represents after flat := by
  by_cases empty : (directory paging).tables slot = 0
  · cases allocFrame_fresh represents.bounded represents.nullUsed with
    | inl failed => exact .inl ⟨empty, failed, ensureTable_failed empty failed⟩
    | inr taken =>
        obtain ⟨page, inside, clear, _, result, notNull⟩ := taken
        have bounded := represents.bounded
        have itsFrame : frame (fillEntry ((directory paging).entries slot) flags
            ((page * 4096) >>> 12)) = page := by
          rw [frame_fillEntry, Nat.shiftRight_eq_div_pow]
          omega
        refine .inr ⟨_, _, ensureTable_created empty result notNull, notNull, ?_,
          represents.newTable take_grows inside clear ?_ notNull empty present_fillEntry itsFrame⟩
        · rw [directory_setDirectory]
          exact Function.update_self ..
        · simp
  · exact .inr ⟨paging, _, ensureTable_existing empty, empty, rfl, represents⟩

theorem Represents.mapPage_cases (represents : Represents paging flat) (vaddr paddr flags : Nat) :
    ((directory paging).tables (pdIndex vaddr) = 0 ∧ allocFrame paging.pmm = (paging.pmm, 0) ∧
        Direct.mapPage paging vaddr paddr flags = paging) ∨
      Represents (Direct.mapPage paging vaddr paddr flags) (flatStep flat (.map vaddr paddr flags)) := by
  cases represents.ensureTable_cases (pdIndex vaddr) flags with
  | inl failed =>
      obtain ⟨empty, exhausted, result⟩ := failed
      exact .inl ⟨empty, exhausted, by simp [Direct.mapPage, result]⟩
  | inr supplied =>
      obtain ⟨after, table, result, notNull, here, kept⟩ := supplied
      right
      subst here
      have small : fillEntry (entryWord after.memory ((directory after).tables (pdIndex vaddr))
          (ptIndex vaddr)) flags (u32 paddr >>> 12) < 4294967296 :=
        fillEntry_lt (Memory.load32_lt after.memory _)
      have stored := kept.store notNull (ptIndex_lt : ptIndex vaddr < 1024) small
      have target : u32 paddr >>> 12 % 2 ^ 20 = u32 paddr >>> 12 := by
        have word := u32_lt paddr
        rw [Nat.shiftRight_eq_div_pow]
        omega
      rw [pageNumber_eq, decode_fillEntry, target] at stored
      simpa only [Direct.mapPage, result, notNull, if_false, flatStep] using stored

theorem Represents.mapPage_supplied (represents : Represents paging flat)
    (vaddr paddr flags : Nat)
    (supplied : (directory paging).tables (pdIndex vaddr) ≠ 0 ∨ (allocFrame paging.pmm).2 ≠ 0) :
    Represents (Direct.mapPage paging vaddr paddr flags) (flatStep flat (.map vaddr paddr flags)) := by
  cases represents.mapPage_cases vaddr paddr flags with
  | inl failed =>
      obtain ⟨empty, exhausted, _⟩ := failed
      rw [exhausted] at supplied
      simp [empty] at supplied
  | inr mapped => exact mapped

theorem Represents.unmapPage (represents : Represents paging flat) (vaddr : Nat) :
    Represents (Direct.unmapPage paging vaddr) (flatStep flat (.unmap vaddr)) := by
  by_cases empty : (directory paging).tables (pdIndex vaddr) = 0
  · have already := represents.contents (pdIndex vaddr) (ptIndex vaddr) ptIndex_lt
    rw [pageNumber_eq, lookup, if_pos empty] at already
    have same : flatStep flat (.unmap vaddr) = flat := by
      simp only [flatStep]
      rw [already]
      exact Function.update_eq_self ..
    simpa only [Paging.Direct.unmapPage, empty, if_true, same] using represents
  · have small := unmapped_lt (Memory.load32_lt paging.memory
      ((directory paging).tables (pdIndex vaddr) + 4 * ptIndex vaddr))
    have stored := represents.store empty (ptIndex_lt : ptIndex vaddr < 1024) small
    rw [pageNumber_eq, decode_unmapped] at stored
    simpa only [Paging.Direct.unmapPage, empty, if_false, flatStep, entryWord] using stored

/-- One operation on the directory is the same operation on the flat map. -/
theorem Represents.direct_flat {op : Op} (represents : Represents paging flat)
    (supplied : Supplied paging op) : Represents (Direct.step paging op) (flatStep flat op) := by
  cases op with
  | map vaddr paddr flags => exact represents.mapPage_supplied vaddr paddr flags supplied
  | unmap vaddr => exact represents.unmapPage vaddr
  | alloc => exact represents.alloc

/-- An operation that is not supplied has no effect. -/
theorem Represents.direct_any {op : Op} (represents : Represents paging flat) :
    Represents (Direct.step paging op) (if Supplied paging op then flatStep flat op else flat) := by
  by_cases supplied : Supplied paging op
  · rw [if_pos supplied]
    exact represents.direct_flat supplied
  · rw [if_neg supplied]
    cases op with
    | map vaddr paddr flags =>
        rw [Supplied, not_or, not_not, not_not] at supplied
        obtain ⟨empty, null⟩ := supplied
        have unchanged : Direct.mapPage paging vaddr paddr flags = paging := by
          cases allocFrame_fresh represents.bounded represents.nullUsed with
          | inl failed => simp only [Direct.mapPage, ensureTable_failed empty failed, if_true]
          | inr fresh =>
              obtain ⟨page, _, _, _, result, notNull⟩ := fresh
              rw [result] at null
              exact absurd null notNull
        rw [Direct.step, unchanged]
        exact represents
    | unmap vaddr => exact absurd trivial supplied
    | alloc => exact absurd trivial supplied

theorem identityMap_succ {memory : Memory} {count : Nat} :
    identityMap memory table (count + 1) =
      setEntryWord (identityMap memory table count) table count
        (setFrame (setRw (setPresent (entryWord (identityMap memory table count) table count) 1) 1)
          ((count * 0x1000) >>> 12)) := by
  simp [identityMap, List.range_succ]

/-- The words of the identity table while its loop runs over a zeroed frame. -/
theorem entryWord_identityMap {memory : Memory} {count : Nat}
    (zeroed : ∀ index < 1024, entryWord memory table index = 0) (inside : index < 1024) :
    entryWord (identityMap memory table count) table index =
      if index < count then identityEntry index else 0 := by
  induction count with
  | zero => simpa [identityMap] using zeroed index inside
  | succ count ih =>
      rw [identityMap_succ]
      by_cases same : index = count
      · subst same
        rw [if_neg (Nat.lt_irrefl index)] at ih
        have target : (index * 0x1000) >>> 12 = index := by
          rw [Nat.shiftRight_eq_div_pow]
          omega
        rw [ih, target, entryWord, setEntryWord, if_pos (Nat.lt_succ_self index)]
        exact Memory.load32_store32_same identityEntry_lt
      · rw [entryWord, setEntryWord, Memory.load32_store32_other (by omega)]
        have sameRange : index < count + 1 ↔ index < count := by omega
        simp only [sameRange]
        exact ih

/-- `init_paging` leaves a directory with one table, which maps the low four
megabytes to themselves. -/
theorem initPaging_eq {pmm after : PmmManager} {memory : Memory} {directories : Nat → Directory}
    {kernel : Nat} (result : allocFrame pmm = (after, table)) (notNull : table ≠ 0) :
    initPaging (bootPaging pmm memory directories kernel) =
      { pmm := after
        memory := identityMap (memory.fill table 4096 0) table 1024
        directories := Function.update directories kernel
          { entries := Function.update (fun _ => 0) 0
              (identityEntry (table >>> 12))
            tables := Function.update (fun _ => 0) 0 table }
        kernelPageDir := kernel
        currentPageDir := kernel } := by
  simp [initPaging, bootPaging, Direct.createPageTable, setDirectory, result, notNull, identityEntry]

theorem initPaging_represents {pmm : PmmManager} {memory : Memory}
    {directories : Nat → Directory} {kernel : Nat} (bounded : pmm.totalPages ≤ 1048576)
    (nullUsed : pmm.bitmap.test 0 = true) (available : (allocFrame pmm).2 ≠ 0) :
    Represents (initPaging (bootPaging pmm memory directories kernel)) identityFlat := by
  cases allocFrame_fresh bounded nullUsed with
  | inl failed => simp [failed] at available
  | inr taken =>
      obtain ⟨page, inside, clear, _, result, notNull⟩ := taken
      have grows : Grows pmm (take pmm page) := take_grows
      have marked : (take pmm page).bitmap.test page = true := by simp
      rw [initPaging_eq result notNull]
      generalize take pmm page = after at grows marked
      have zeroed : ∀ index < 1024, entryWord (memory.fill (page * 4096) 4096 0) (page * 4096) index = 0 := by
        intro index within
        rw [entryWord, Memory.load32_fill_zero (by omega) (by omega)]
      have itsFrame : frame (identityEntry ((page * 4096) >>> 12)) = page := by
        rw [frame_identityEntry, Nat.shiftRight_eq_div_pow]
        omega
      have onlyFirst : ∀ slot, Function.update (fun _ => 0) 0 (page * 4096) slot ≠ 0 → slot = 0 := by
        intro slot here
        by_contra different
        simp [different] at here
      refine ⟨?_, grows.used 0 nullUsed, ?_, ?_, ?_, ?_, ?_⟩
      · rw [← grows.totalPages] at bounded
        exact bounded
      all_goals simp only [lookup, directory, activeDir, ite_self, Function.update_self]
      · intro slot here
        rw [onlyFirst slot here, Function.update_self]
        rw [← grows.totalPages] at inside
        exact ⟨page, rfl, inside, marked⟩
      · intro slot other here same
        rw [onlyFirst slot here, onlyFirst other (by rw [← same]; exact here)]
      · intro slot missing
        by_cases first : slot = 0
        · rw [first, Function.update_self] at missing
          exact absurd missing notNull
        · rw [Function.update_of_ne first, present, field_zero]
      · intro slot here
        rw [onlyFirst slot here, Function.update_self, Function.update_self, itsFrame]
        exact ⟨present_identityEntry, rfl⟩
      · intro slot index within
        by_cases first : slot = 0
        · rw [first, Function.update_self, if_neg notNull, entryWord_identityMap zeroed within,
            if_pos within, decode_identityEntry, identityFlat, if_pos (by omega),
            Nat.mod_eq_of_lt (by omega)]
          simp
        · rw [Function.update_of_ne first, if_pos rfl, identityFlat, if_neg (by omega)]

end

end Helios.Paging
