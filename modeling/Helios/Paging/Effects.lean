import Helios.Paging.Runs

namespace Helios.Paging

open Helios.Data Helios.Pmm

/-! What a successful `map_page` changes besides the mapping of its page, where its
stores land in its table. -/

/-- Where the table of a slot, in the frame `table`, comes from. -/
inductive Supply (before : PmmManager) (dir : Directory) (after : PmmManager) (wired : Directory)
    (slot flags table : Nat) : Prop where
  | existing (here : dir.tables slot = table * 4096) (notNull : table * 4096 ≠ 0)
      (pmm : after = before) (same : wired = dir)
  | created (empty : dir.tables slot = 0) (notNull : table * 4096 ≠ 0)
      (inside : table < before.totalPages) (clear : before.bitmap.test table = false)
      (pmm : after = take before table) (word : Nat) (itsUser : user word = flagBit flags pageUser)
      (added : wired = dir.addTable slot word table)

/-- What the kernel relies on between two calls. -/
structure Ready (paging : PageManager) (flat : FlatMap) : Prop where
  represents : Represents paging flat
  balanced : Balanced paging.pmm
  reserved : ∀ page < reservedPages paging.pmm.totalPages, paging.pmm.bitmap.test page = true

section

variable {before after : PmmManager} {dir wired : Directory} {paging : PageManager} {flat : FlatMap}
variable {slot other flags table vaddr paddr address page : Nat}

theorem pdIndex_lt : pdIndex vaddr < 1024 := by
  have word := u32_lt vaddr
  rw [pdIndex, Nat.shiftRight_eq_div_pow]
  omega

theorem Supply.here (supply : Supply before dir after wired slot flags table) :
    wired.tables slot = table * 4096 ∧ table * 4096 ≠ 0 := by
  cases supply with
  | existing here notNull pmm same =>
      rw [same]
      exact ⟨here, notNull⟩
  | created empty notNull inside clear pmm word itsUser added =>
      rw [added]
      exact ⟨Function.update_self .., notNull⟩

theorem Supply.tables_other (supply : Supply before dir after wired slot flags table)
    (different : other ≠ slot) : wired.tables other = dir.tables other := by
  cases supply with
  | existing here notNull pmm same => rw [same]
  | created empty notNull inside clear pmm word itsUser added =>
      rw [added]
      exact Function.update_of_ne different ..

theorem Supply.kept (supply : Supply before dir after wired slot flags table)
    (here : dir.tables other ≠ 0) :
    wired.tables other = dir.tables other := by
  cases supply with
  | existing itsTable notNull pmm same => rw [same]
  | created empty notNull inside clear pmm word itsUser added =>
      have different : other ≠ slot := by
        intro same
        rw [same] at here
        exact here empty
      rw [added]
      exact Function.update_of_ne different ..

theorem Supply.grows (supply : Supply before dir after wired slot flags table) : Grows before after := by
  cases supply with
  | existing here notNull pmm same =>
      rw [pmm]
      exact Grows.refl
  | created empty notNull inside clear pmm word itsUser added =>
      rw [pmm]
      exact take_grows

theorem Supply.entries_other (supply : Supply before dir after wired slot flags table)
    (different : other ≠ slot) : wired.entries other = dir.entries other := by
  cases supply with
  | existing here notNull pmm same => rw [same]
  | created empty notNull inside clear pmm word itsUser added =>
      rw [added]
      exact Function.update_of_ne different ..

theorem Supply.used (supply : Supply before dir after wired slot flags table)
    (marked : after.bitmap.test page = true) : before.bitmap.test page = true ∨ page = table := by
  cases supply with
  | existing here notNull pmm same =>
      rw [pmm] at marked
      exact .inl marked
  | created empty notNull inside clear pmm word itsUser added =>
      rw [pmm, take_bitmap, Bitmap.test_set, Bool.or_eq_true, decide_eq_true_eq] at marked
      exact marked.symm

theorem Supply.initialized (supply : Supply before dir after wired slot flags table) :
    after.initialized = before.initialized := by
  cases supply with
  | existing here notNull pmm same => rw [pmm]
  | created empty notNull inside clear pmm word itsUser added => rw [pmm, take_initialized]

theorem Supply.balanced (supply : Supply before dir after wired slot flags table)
    (balanced : Balanced before) :
    Balanced after ∧ after.freePages + (if dir.tables slot = 0 then 1 else 0) = before.freePages := by
  cases supply with
  | existing here notNull pmm same =>
      rw [pmm, if_neg (here ▸ notNull)]
      exact ⟨balanced, rfl⟩
  | created empty notNull inside clear pmm word itsUser added =>
      rw [pmm, if_pos empty]
      exact balanced.take inside clear

theorem Supply.enough {count : Nat} (supply : Supply before dir after wired slot flags table)
    (enough : Enough before (count + if dir.tables slot = 0 then 1 else 0)) : Enough after count := by
  cases supply with
  | existing here notNull pmm same =>
      rw [if_neg (here ▸ notNull)] at enough
      rw [pmm]
      exact enough
  | created empty notNull inside clear pmm word itsUser added =>
      rw [if_pos empty] at enough
      rw [pmm]
      exact enough.take inside clear

theorem Supply.untabled (supply : Supply before dir after wired slot flags table)
    (marked : before.bitmap.test page = true) (old : ∀ other, dir.tables other ≠ page * 4096)
    (other : Nat) : wired.tables other ≠ page * 4096 := by
  by_cases same : other = slot
  · obtain ⟨here, _⟩ := supply.here
    rw [same, here]
    intro equal
    have itsTable : table = page := by omega
    subst itsTable
    cases supply with
    | existing there notNull pmm same => exact old slot there
    | created empty notNull inside clear pmm word itsUser added =>
        rw [clear] at marked
        cases marked
  · rw [supply.tables_other same]
    exact old other

theorem Supply.inTable (supply : Supply before dir after wired slot flags table) :
    InTable wired address ↔ InTable dir address ∨
      table * 4096 ≤ address ∧ address < table * 4096 + 4096 := by
  obtain ⟨here, notNull⟩ := supply.here
  constructor
  · intro within
    obtain ⟨other, itsTable, lower, upper⟩ := within
    by_cases same : other = slot
    · rw [same, here] at lower upper
      exact .inr ⟨lower, upper⟩
    · rw [supply.tables_other same] at itsTable lower upper
      exact .inl ⟨other, itsTable, lower, upper⟩
  · intro within
    cases within with
    | inl old =>
        obtain ⟨other, itsTable, lower, upper⟩ := old
        refine ⟨other, ?_⟩
        rw [supply.kept itsTable]
        exact ⟨itsTable, lower, upper⟩
    | inr new =>
        refine ⟨slot, ?_⟩
        rw [here]
        exact ⟨notNull, new⟩

theorem allocFrame_null {pmm : PmmManager} (represents : Represents { paging with pmm } flat)
    (null : (allocFrame pmm).2 = 0) : allocFrame pmm = (pmm, 0) := by
  cases allocFrame_fresh represents.bounded represents.nullUsed with
  | inl failed => exact failed
  | inr taken =>
      obtain ⟨page, _, _, _, result, notNull⟩ := taken
      simp only [result] at null
      exact absurd null notNull

theorem mapPage_exhausted {pmm : PmmManager}
    (empty : (directory paging).tables (pdIndex vaddr) = 0) (exhausted : allocFrame pmm = (pmm, 0)) :
    Direct.mapPage { paging with pmm } vaddr paddr flags = { paging with pmm } := by
  have missing : (directory { paging with pmm }).tables (pdIndex vaddr) = 0 := empty
  simp only [Direct.mapPage, ensureTable_failed missing exhausted, if_true]

/-- In a table that exists `map_page` stores to one entry. -/
theorem mapPage_entry {pmm : PmmManager} (here : (directory paging).tables (pdIndex vaddr) ≠ 0)
    (outside : address < (directory paging).tables (pdIndex vaddr) + 4 * ptIndex vaddr ∨
      (directory paging).tables (pdIndex vaddr) + 4 * ptIndex vaddr + 4 ≤ address) :
    (Direct.mapPage { paging with pmm } vaddr paddr flags).memory address = paging.memory address := by
  have there : (directory { paging with pmm }).tables (pdIndex vaddr) ≠ 0 := here
  rw [Direct.mapPage, ensureTable_existing there]
  simp only [there, if_false]
  exact Memory.store32_other outside

/-- The stores of `map_page` stay in the table of the slot. -/
theorem Represents.mapPage_effect (represents : Represents paging flat) (vaddr paddr flags : Nat)
    (supplied : (directory paging).tables (pdIndex vaddr) ≠ 0 ∨ (allocFrame paging.pmm).2 ≠ 0) :
    ∃ table, Supply paging.pmm (directory paging) (Direct.mapPage paging vaddr paddr flags).pmm
        (directory (Direct.mapPage paging vaddr paddr flags)) (pdIndex vaddr) flags table ∧
      Memory.Confined (table * 4096) (table * 4096 + 4096) paging.memory
        (Direct.mapPage paging vaddr paddr flags).memory := by
  have index : ptIndex vaddr < 1024 := ptIndex_lt
  by_cases empty : (directory paging).tables (pdIndex vaddr) = 0
  · cases allocFrame_fresh represents.bounded represents.nullUsed with
    | inl failed =>
        rw [failed] at supplied
        simp [empty] at supplied
    | inr taken =>
        obtain ⟨table, inside, clear, _, result, notNull⟩ := taken
        refine ⟨table, ?_⟩
        rw [Direct.mapPage, ensureTable_created empty result notNull]
        simp only [notNull, if_false]
        refine ⟨.created empty notNull inside clear rfl
          (fillEntry ((directory paging).entries (pdIndex vaddr)) flags ((table * 4096) >>> 12))
          user_fillEntry directory_setDirectory, ?_⟩
        exact (Memory.Confined.refl.fill (by omega) (by omega)).store32 (by omega) (by omega)
  · obtain ⟨table, address, _⟩ := represents.tables _ empty
    refine ⟨table, ?_⟩
    rw [Direct.mapPage, ensureTable_existing empty]
    simp only [empty, if_false]
    refine ⟨.existing address (address ▸ empty) rfl rfl, ?_⟩
    rw [address]
    exact Memory.Confined.refl.store32 (by omega) (by omega)

/-- An unused frame holds no table. -/
theorem Represents.clear_apart (represents : Represents paging flat)
    (clear : paging.pmm.bitmap.test (address / 4096) = false) : ¬ InTable (directory paging) address := by
  intro within
  obtain ⟨slot, here, lower, upper⟩ := within
  have apart := represents.wired.apart clear here
  omega

theorem Ready.take (ready : Ready paging flat) (inside : page < paging.pmm.totalPages)
    (clear : paging.pmm.bitmap.test page = false) :
    Ready { paging with pmm := Pmm.take paging.pmm page } flat := by
  have grows : Grows paging.pmm (Pmm.take paging.pmm page) := take_grows
  refine ⟨ready.represents.grow grows, (ready.balanced.take inside clear).1, fun other low => ?_⟩
  rw [grows.totalPages] at low
  exact grows.used other (ready.reserved other low)

theorem frame_available (ready : Ready paging flat) (initialized : paging.pmm.initialized = true)
    (some_left : paging.pmm.freePages ≠ 0) :
    ∃ page, page < paging.pmm.totalPages ∧ paging.pmm.bitmap.test page = false ∧
      allocFrame paging.pmm = (take paging.pmm page, page * 4096) ∧ page * 4096 ≠ 0 := by
  cases allocFrame_fresh ready.represents.bounded ready.represents.nullUsed with
  | inl failed =>
      exact absurd (ready.balanced.exhausted ready.represents.bounded ready.represents.nullUsed
        initialized failed) some_left
  | inr taken =>
      obtain ⟨page, inside, clear, _, result, notNull⟩ := taken
      exact ⟨page, inside, clear, result, notNull⟩

theorem ready_sequential (represents : Represents paging flat)
    (sequential : Sequential paging.pmm count)
    (reserved : reservedPages paging.pmm.totalPages ≤ count) : Ready paging flat := by
  refine ⟨represents, sequential.balanced, fun page low => ?_⟩
  have inside := sequential.inside
  rw [sequential.test page (by omega)]
  simpa using Nat.lt_of_lt_of_le low reserved

theorem Ready.direct (ready : Ready paging flat) (op : Op) :
    ∃ after, Ready (Direct.step paging op) after := by
  cases op with
  | map vaddr paddr flags =>
      show ∃ after, Ready (Direct.mapPage paging vaddr paddr flags) after
      by_cases supplied : (directory paging).tables (pdIndex vaddr) ≠ 0 ∨
          (allocFrame paging.pmm).2 ≠ 0
      · obtain ⟨table, supply, _⟩ := ready.represents.mapPage_effect vaddr paddr flags supplied
        refine ⟨_, ready.represents.mapPage_supplied vaddr paddr flags supplied,
          (supply.balanced ready.balanced).1, fun page low => ?_⟩
        rw [supply.grows.totalPages] at low
        exact supply.grows.used page (ready.reserved page low)
      · rw [not_or, not_not, not_not] at supplied
        rw [mapPage_exhausted supplied.1 (allocFrame_null ready.represents supplied.2)]
        exact ⟨flat, ready⟩
  | unmap vaddr =>
      have represents := ready.represents.unmapPage vaddr
      have same : (Direct.unmapPage paging vaddr).pmm = paging.pmm := by
        rw [Direct.unmapPage]
        split <;> rfl
      refine ⟨_, represents, ?_, ?_⟩
      · rw [Direct.step, same]
        exact ready.balanced
      · rw [Direct.step, same]
        exact ready.reserved
  | alloc =>
      show ∃ after, Ready { paging with pmm := (allocFrame paging.pmm).1 } after
      cases allocFrame_fresh ready.represents.bounded ready.represents.nullUsed with
      | inl failed =>
          rw [failed]
          exact ⟨flat, ready⟩
      | inr fresh =>
          obtain ⟨page, inside, clear, _, result, _⟩ := fresh
          rw [result]
          exact ⟨flat, ready.take inside clear⟩

/-- The states behind `init_pmm` and `init_paging`. -/
theorem boot_ready {contents : Bitmap} {totalMemoryKb kernelPageDir : Nat} {memory : Memory}
    {directories : Nat → Directory} {ops : List Op}
    (room : reservedPages (initPmm contents totalMemoryKb).totalPages <
      (initPmm contents totalMemoryKb).totalPages)
    (reaches : Along step Reaches (boot contents totalMemoryKb memory directories kernelPageDir) ops)
    (reached : run step (boot contents totalMemoryKb memory directories kernelPageDir) ops =
      some paging) : ∃ flat, Ready paging flat := by
  obtain ⟨sequential, total, _⟩ := @boot_sequential contents totalMemoryKb kernelPageDir memory
    directories room
  rw [← total] at sequential
  have booted : Ready (boot contents totalMemoryKb memory directories kernelPageDir) identityFlat :=
    ready_sequential (boot_represents (boot_available room)) sequential (Nat.le_add_right _ 1)
  refine run_invariant (fun paging => ∃ flat, Ready paging flat) reaches ⟨identityFlat, booted⟩ ?_
    reached
  intro state op next ready reaches taken
  obtain ⟨flat, here⟩ := ready
  rw [here.represents.step_direct reaches, Option.some.injEq] at taken
  exact taken ▸ here.direct op

end

end Helios.Paging
