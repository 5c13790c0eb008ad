import Helios.Paging.Effects

namespace Helios.Paging

open Helios.Data Helios.Pmm

/-! Two states that differ in the contents of memory only.

`map_page` reads no byte outside the page tables, so it does the same in both. -/

/-- `memory` agrees with the state's own on the known addresses and in the
page tables. -/
def Agrees (known : Nat → Prop) (paging : PageManager) (memory : Memory) : Prop :=
  ∀ address, known address ∨ InTable (directory paging) address → memory address = paging.memory address

section

variable {paging : PageManager} {flat : FlatMap} {known wider : Nat → Prop} {memory : Memory}
variable {slot index table : Nat}

theorem Agrees.mono (agrees : Agrees known paging memory)
    (fewer : ∀ address, wider address → known address ∨ InTable (directory paging) address) :
    Agrees wider paging memory := by
  intro address within
  cases within with
  | inl here => exact agrees address (fewer address here)
  | inr inTable => exact agrees address (.inr inTable)

theorem Agrees.represents (agrees : Agrees known paging memory) (represents : Represents paging flat) :
    Represents { paging with memory } flat :=
  represents.outside fun address inTable => agrees address (.inr inTable)

theorem Agrees.walk_eq (agrees : Agrees known paging memory) (represents : Represents paging flat)
    (vaddr : Nat) : walk { paging with memory } vaddr = walk paging vaddr := by
  rw [represents.walk_eq, (agrees.represents represents).walk_eq]

theorem Agrees.entryWord_eq (agrees : Agrees known paging memory)
    (here : (directory paging).tables slot ≠ 0) (inside : index < 1024) :
    entryWord memory ((directory paging).tables slot) index =
      entryWord paging.memory ((directory paging).tables slot) index := by
  apply Memory.load32_congr
  intro position lower upper
  exact agrees position (.inr ⟨slot, here, by omega, by omega⟩)

theorem Agrees.ensureTable (agrees : Agrees known paging memory) (represents : Represents paging flat)
    (slot flags : Nat) :
    ∃ filled, Paging.Direct.ensureTable { paging with memory } slot flags =
        ({ (Paging.Direct.ensureTable paging slot flags).1 with memory := filled },
          (Paging.Direct.ensureTable paging slot flags).2) ∧
      Agrees known (Paging.Direct.ensureTable paging slot flags).1 filled := by
  by_cases empty : (directory paging).tables slot = 0
  · have missing : (directory { paging with memory }).tables slot = 0 := empty
    cases allocFrame_fresh represents.bounded represents.nullUsed with
    | inl failed =>
        refine ⟨memory, ?_⟩
        rw [ensureTable_failed empty failed, @ensureTable_failed { paging with memory } _ _ missing failed]
        exact ⟨rfl, agrees⟩
    | inr taken =>
        obtain ⟨page, inside, clear, _, result, notNull⟩ := taken
        refine ⟨memory.fill (page * 4096) 4096 0, ?_⟩
        rw [ensureTable_created empty result notNull,
          @ensureTable_created { paging with memory } _ _ _ _ missing result notNull]
        refine ⟨rfl, ?_⟩
        intro address within
        apply Memory.fill_congr
        intro outside
        apply agrees address
        cases within with
        | inl here => exact .inl here
        | inr inTable =>
            obtain ⟨other, itsTable, lower, upper⟩ := inTable
            rw [directory_setDirectory] at itsTable lower upper
            by_cases same : other = slot
            · simp only [same, Function.update_self] at lower upper
              omega
            · simp only [Function.update_of_ne same] at itsTable lower upper
              exact .inr ⟨other, itsTable, lower, upper⟩
  · have here : (directory { paging with memory }).tables slot ≠ 0 := empty
    refine ⟨memory, ?_⟩
    rw [ensureTable_existing empty, ensureTable_existing here]
    exact ⟨rfl, agrees⟩

theorem Agrees.mapPage (agrees : Agrees known paging memory) (represents : Represents paging flat)
    (vaddr paddr flags : Nat) :
    ∃ stored, Paging.Direct.mapPage { paging with memory } vaddr paddr flags =
        { Paging.Direct.mapPage paging vaddr paddr flags with memory := stored } ∧
      Agrees known (Paging.Direct.mapPage paging vaddr paddr flags) stored := by
  obtain ⟨filled, same, kept⟩ := agrees.ensureTable represents (pdIndex vaddr) flags
  cases represents.ensureTable_cases (pdIndex vaddr) flags with
  | inl failed =>
      obtain ⟨_, _, result⟩ := failed
      rw [result] at same kept
      refine ⟨filled, ?_⟩
      simp only [Paging.Direct.mapPage, same, result, if_true]
      exact ⟨trivial, kept⟩
  | inr supplied =>
      obtain ⟨middle, table, result, notNull, here, _⟩ := supplied
      rw [result] at same kept
      subst here
      have word := kept.entryWord_eq notNull (ptIndex_lt : ptIndex vaddr < 1024)
      simp only [Paging.Direct.mapPage, same, result, notNull, if_false, word]
      exact ⟨_, rfl, fun address within => Memory.store32_congr (kept address within)⟩

end

end Helios.Paging
