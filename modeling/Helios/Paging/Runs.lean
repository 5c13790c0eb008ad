import Helios.Paging.Reach

namespace Helios.Paging

open Helios.Data Helios.Pmm

/-! Runs of `map_page`, `unmap_page` and the other clients of the allocator. -/

/-- The state that `init_pmm` and `init_paging` leave. -/
def boot (contents : Bitmap) (totalMemoryKb : Nat) (memory : Memory)
    (directories : Nat → Directory) (kernelPageDir : Nat) : PageManager :=
  initPaging (bootPaging (initPmm contents totalMemoryKb) memory directories kernelPageDir)

/-- The flat map that the operations of a run describe. -/
def flatRun (ops : List Op) : FlatMap := ops.foldl flatStep identityFlat

/-- The page that an operation names. -/
def Op.page : Op → Option Nat
  | .map vaddr _ _ => some (pageNumber vaddr)
  | .unmap vaddr => some (pageNumber vaddr)
  | .alloc => none

section

variable {contents : Bitmap} {totalMemoryKb kernelPageDir : Nat} {memory : Memory}
variable {directories : Nat → Directory} {paging next : PageManager} {flat : FlatMap}
variable {ops : List Op} {op : Op}

theorem initPmm_nullUsed : (initPmm contents totalMemoryKb).bitmap.test 0 = true := by
  rw [test_initPmm]
  simp [reservedPages]

theorem boot_represents (available : (allocFrame (initPmm contents totalMemoryKb)).2 ≠ 0) :
    Represents (boot contents totalMemoryKb memory directories kernelPageDir) identityFlat :=
  initPaging_represents initPmm_totalPages_le initPmm_nullUsed available

/-- After boot the allocator has handed out one frame, the identity table. -/
theorem boot_sequential
    (room : reservedPages (initPmm contents totalMemoryKb).totalPages <
      (initPmm contents totalMemoryKb).totalPages) :
    Sequential (boot contents totalMemoryKb memory directories kernelPageDir).pmm
        (reservedPages (initPmm contents totalMemoryKb).totalPages + 1) ∧
      (boot contents totalMemoryKb memory directories kernelPageDir).pmm.totalPages =
        (initPmm contents totalMemoryKb).totalPages ∧
      (directory (boot contents totalMemoryKb memory directories kernelPageDir)).tables =
        Function.update (fun _ => 0) 0
          (reservedPages (initPmm contents totalMemoryKb).totalPages * 4096) := by
  have sequential := initPmm_sequential room.le
  have notNull : reservedPages (initPmm contents totalMemoryKb).totalPages * 4096 ≠ 0 := by
    have positive := sequential.positive
    omega
  have taken := sequential.take room
  rw [boot, initPaging_eq (sequential.allocFrame_eq room) notNull]
  refine ⟨taken, take_totalPages, ?_⟩
  simp only [directory, activeDir, ite_self, Function.update_self]

theorem boot_available
    (room : reservedPages (initPmm contents totalMemoryKb).totalPages <
      (initPmm contents totalMemoryKb).totalPages) :
    (allocFrame (initPmm contents totalMemoryKb)).2 ≠ 0 := by
  have sequential := initPmm_sequential room.le
  have positive := sequential.positive
  rw [sequential.allocFrame_eq room]
  simp only [ne_eq, Nat.mul_eq_zero]
  omega

theorem Represents.mapPage_sequential {count vaddr : Nat} (represents : Represents paging flat)
    (paddr flags : Nat) (empty : (directory paging).tables (pdIndex vaddr) = 0)
    (sequential : Sequential paging.pmm count) (room : count < paging.pmm.totalPages) :
    Represents (Direct.mapPage paging vaddr paddr flags) (flatStep flat (.map vaddr paddr flags)) ∧
      Sequential (Direct.mapPage paging vaddr paddr flags).pmm (count + 1) ∧
      (Direct.mapPage paging vaddr paddr flags).pmm.totalPages = paging.pmm.totalPages ∧
      (directory (Direct.mapPage paging vaddr paddr flags)).tables =
        Function.update (directory paging).tables (pdIndex vaddr) (count * 4096) := by
  have positive := sequential.positive
  have taken := sequential.take room
  have result := sequential.allocFrame_eq room
  have notNull : count * 4096 ≠ 0 := by omega
  have mapped := represents.mapPage_supplied vaddr paddr flags (.inr (by rw [result]; exact notNull))
  have created : (Direct.mapPage paging vaddr paddr flags).pmm = take paging.pmm count ∧
      (directory (Direct.mapPage paging vaddr paddr flags)).tables =
        Function.update (directory paging).tables (pdIndex vaddr) (count * 4096) :=
    mapPage_created paddr flags empty result notNull
  rw [created.1]
  exact ⟨mapped, taken, take_totalPages, created.2⟩

/-- The operation finds a table, or a frame to make one, and that table is mapped
to itself. -/
def Lands (paging : PageManager) (op : Op) : Prop := Supplied paging op ∧ Reaches paging op

theorem Represents.run_flat (represents : Represents paging flat)
    (lands : Along step Lands paging ops) :
    ∃ next, run step paging ops = some next ∧ Represents next (ops.foldl flatStep flat) := by
  induction ops generalizing paging flat with
  | nil => exact ⟨paging, rfl, represents⟩
  | cons op rest ih =>
      obtain ⟨⟨supplied, reaches⟩, later⟩ := lands
      have taken := represents.step_direct reaches
      obtain ⟨next, reached, kept⟩ := ih (represents.direct_flat supplied) (later _ taken)
      exact ⟨next, by rw [run_cons taken, reached], kept⟩

theorem Represents.run_any (represents : Represents paging flat)
    (reaches : Along step Reaches paging ops) (reached : run step paging ops = some next) :
    ∃ after, Represents next after :=
  run_invariant (fun paging => ∃ flat, Represents paging flat) reaches ⟨flat, represents⟩
    (fun _ _ _ represents reaches taken => ⟨_, represents.choose_spec.step_any reaches taken⟩) reached

theorem flatStep_other {page : Nat} (different : op.page ≠ some page) :
    flatStep flat op page = flat page := by
  cases op with
  | map vaddr paddr flags =>
      have apart : page ≠ pageNumber vaddr := fun same => different (by rw [same]; rfl)
      simp [flatStep, apart]
  | unmap vaddr =>
      have apart : page ≠ pageNumber vaddr := fun same => different (by rw [same]; rfl)
      simp [flatStep, apart]
  | alloc => rfl

/-- The directory refines the flat map, in every run whose operations find their
tables mapped to themselves: none of them faults, every walk gives what the last
operation on the page said, a further such operation leaves the walks of all
other pages alone, the entries and the table pointers describe the same tables,
and no two slots share one. -/
theorem directory_refines_flat_map (contents : Bitmap) (totalMemoryKb : Nat) (memory : Memory)
    (directories : Nat → Directory) (kernelPageDir : Nat) (ops : List Op)
    (available : (allocFrame (initPmm contents totalMemoryKb)).2 ≠ 0)
    (lands : Along step Lands (boot contents totalMemoryKb memory directories kernelPageDir) ops) :
    ∃ paging, run step (boot contents totalMemoryKb memory directories kernelPageDir) ops =
        some paging ∧
      (∀ vaddr, walk paging vaddr = flatRun ops (pageNumber vaddr)) ∧
      (∀ op, Lands paging op → ∃ next, step paging op = some next ∧
        ∀ vaddr, op.page ≠ some (pageNumber vaddr) → walk next vaddr = walk paging vaddr) ∧
      (∀ slot, (directory paging).tables slot ≠ 0 ↔
        present ((directory paging).entries slot) = 1) ∧
      (∀ slot, (directory paging).tables slot ≠ 0 →
        frame ((directory paging).entries slot) * 4096 = (directory paging).tables slot) ∧
      (∀ slot other, (directory paging).tables slot ≠ 0 →
        (directory paging).tables slot = (directory paging).tables other → slot = other) := by
  obtain ⟨paging, reached, represents⟩ : ∃ paging, run step _ ops = some paging ∧
      Represents paging (flatRun ops) := (boot_represents available).run_flat lands
  refine ⟨paging, reached, fun vaddr => represents.walk_eq, ?_, ?_,
    fun slot here => (represents.entry slot here).2, represents.distinct⟩
  · intro op here
    refine ⟨_, represents.step_direct here.2, fun vaddr different => ?_⟩
    rw [(represents.direct_flat here.1).walk_eq, represents.walk_eq, flatStep_other different]
  · intro slot
    constructor
    · intro here
      exact (represents.entry slot here).1
    · intro isPresent missing
      rw [represents.absent slot missing] at isPresent
      cases isPresent

theorem initPmm_eight_megabytes : (initPmm contents 8192).totalPages = 2048 := by
  rw [initPmm_totalPages]
  rfl

theorem room_eight_megabytes : reservedPages (initPmm contents 8192).totalPages <
    (initPmm contents 8192).totalPages := by
  rw [initPmm_eight_megabytes]
  decide

theorem boot_eight_megabytes :
    Represents (boot contents 8192 memory directories kernelPageDir) identityFlat ∧
      Sequential (boot contents 8192 memory directories kernelPageDir).pmm 514 ∧
      (boot contents 8192 memory directories kernelPageDir).pmm.totalPages = 2048 ∧
      (directory (boot contents 8192 memory directories kernelPageDir)).tables =
        Function.update (fun _ => 0) 0 (513 * 4096) := by
  obtain ⟨sequential, total, tables⟩ :=
    @boot_sequential contents 8192 kernelPageDir memory directories room_eight_megabytes
  have reserved : reservedPages (initPmm contents 8192).totalPages = 513 := by
    rw [initPmm_eight_megabytes]
    decide
  rw [reserved] at sequential tables
  rw [initPmm_eight_megabytes] at total
  exact ⟨boot_represents (boot_available room_eight_megabytes), sequential, total, tables⟩

/-- The directory has the table of the low four megabytes in the frame 513. -/
structure LowTable (paging : PageManager) (flat : FlatMap) : Prop where
  represents : Represents paging flat
  table : (directory paging).tables 0 = 513 * 4096

theorem boot_low :
    LowTable (boot contents 8192 memory directories kernelPageDir) identityFlat := by
  obtain ⟨represents, _, _, tables⟩ :=
    @boot_eight_megabytes contents kernelPageDir memory directories
  exact ⟨represents, by rw [tables, Function.update_self]⟩

theorem LowTable.here (low : LowTable paging flat) {vaddr : Nat} (slot : pdIndex vaddr = 0) :
    (directory paging).tables (pdIndex vaddr) = 513 * 4096 ∧ tableFor paging vaddr = 513 * 4096 := by
  have table := low.table
  rw [tableFor, slot, table]
  exact ⟨rfl, rfl⟩

theorem LowTable.supplied (low : LowTable paging flat) {vaddr : Nat} (slot : pdIndex vaddr = 0)
    (paddr flags : Nat) : Supplied paging (.map vaddr paddr flags) := by
  refine .inl ?_
  rw [(low.here slot).1]
  decide

/-- While its page is mapped to it, the table is reached. -/
theorem LowTable.reaches {mapping : Mapping} (low : LowTable paging flat) (vaddr : Nat)
    (slot : pdIndex vaddr = 0) (mapped : flat 513 = some mapping) (itself : mapping.frame = 513)
    (paddr flags : Nat) :
    Reaches paging (.map vaddr paddr flags) ∧ Reaches paging (.unmap vaddr) := by
  have found : SelfMapped paging (513 * 4096) :=
    low.represents.selfMapped_page (by decide) mapped itself
  obtain ⟨here, table⟩ := low.here slot
  refine ⟨fun _ => ?_, fun _ => ?_⟩
  · rw [table]
    exact found
  · rw [here]
    exact found

theorem LowTable.lands {mapping : Mapping} (low : LowTable paging flat) {vaddr : Nat}
    (slot : pdIndex vaddr = 0) (mapped : flat 513 = some mapping) (itself : mapping.frame = 513)
    (paddr flags : Nat) : Lands paging (.map vaddr paddr flags) :=
  ⟨low.supplied slot paddr flags, (low.reaches vaddr slot mapped itself paddr flags).1⟩

/-- No operation in the low four megabytes moves the table. -/
theorem LowTable.step (low : LowTable paging flat) (vaddr : Nat) (slot : pdIndex vaddr = 0)
    (paddr flags : Nat) :
    LowTable (Direct.mapPage paging vaddr paddr flags) (flatStep flat (.map vaddr paddr flags)) ∧
      LowTable (Direct.unmapPage paging vaddr) (flatStep flat (.unmap vaddr)) := by
  have table := low.table
  have here := (low.here slot).1
  have present : (directory paging).tables (pdIndex vaddr) ≠ 0 := by
    rw [here]
    decide
  refine ⟨⟨low.represents.mapPage_supplied vaddr paddr flags (.inl present), ?_⟩,
    ⟨low.represents.unmapPage vaddr, ?_⟩⟩
  · rw [(mapPage_existing paging.pmm paddr flags present).2, table]
  · rw [Direct.unmapPage]
    split <;> exact table

/-- An entry that lands behind another page changes no walk. -/
theorem LowTable.misses {vaddr target : Nat} (low : LowTable paging flat)
    (only : ∀ slot ≠ 0, (directory paging).tables slot = 0) (slot : pdIndex vaddr = 0)
    (landed : translate paging (513 * 4096 + 4 * ptIndex vaddr) = some target)
    (outside : target + 4 ≤ 513 * 4096 ∨ 514 * 4096 ≤ target) (paddr flags : Nat) :
    ∃ next, mapPage paging vaddr paddr flags = some next ∧ Represents next flat := by
  have here := (low.here slot).1
  have notNull : ¬ 513 * 4096 = 0 := by decide
  have stored : mapPage paging vaddr paddr flags = some { paging with
      memory := paging.memory.store32 target
        (fillEntry (paging.memory.load32 target) flags (u32 paddr >>> 12)) } := by
    simp only [mapPage, mapPageVia, ensureTable, here, ne_eq, notNull, not_false_eq_true, if_true,
      if_false, Option.bind_some, landed, Option.map_some]
  refine ⟨_, stored, low.represents.outside fun address within => ?_⟩
  obtain ⟨other, there, lower, upper⟩ := within
  have first : other = 0 := by
    by_contra different
    exact there (only other different)
  rw [first, low.table] at lower upper
  exact Memory.store32_other (by omega)

theorem directory_refines_flat_map_remapped :
    ∃ paging, run step (boot (fun _ => 0) 8192 (fun _ => 0) (fun _ => ⟨fun _ => 0, fun _ => 0⟩) 4096)
        [.map 0x1000 0x2000 3, .unmap 0x3000] = some paging ∧
      walk paging 0x1004 = some ⟨2, 1, 0⟩ := by
  have low := @boot_low (fun _ => 0) 4096 (fun _ => 0) (fun _ => ⟨fun _ => 0, fun _ => 0⟩)
  have first : Lands _ (.map 0x1000 0x2000 3) := low.lands rfl rfl rfl 0x2000 3
  have lands : Along step Lands
      (boot (fun _ => 0) 8192 (fun _ => 0) (fun _ => ⟨fun _ => 0, fun _ => 0⟩) 4096)
      [.map 0x1000 0x2000 3, .unmap 0x3000] := by
    refine ⟨first, fun next taken => ⟨⟨trivial, ?_⟩, fun _ _ => trivial⟩⟩
    rw [low.represents.step_direct first.2, Option.some.injEq] at taken
    subst taken
    exact ((low.step 0x1000 rfl 0x2000 3).1.reaches 0x3000 rfl rfl rfl 0 0).2
  obtain ⟨paging, reached, walks, _⟩ := directory_refines_flat_map (fun _ => 0) 8192 (fun _ => 0)
    (fun _ => ⟨fun _ => 0, fun _ => 0⟩) 4096 [.map 0x1000 0x2000 3, .unmap 0x3000]
    (boot_available room_eight_megabytes) lands
  exact ⟨paging, reached, (walks 0x1004).trans (by decide)⟩

/-- Once the page of the identity table is unmapped, the next `map_page` in the
low four megabytes faults; once it is mapped elsewhere, `map_page` writes there
and the walk stays as it was. -/
theorem table_page_lost :
    (Along step Supplied
        (boot (fun _ => 0) 8192 (fun _ => 0) (fun _ => ⟨fun _ => 0, fun _ => 0⟩) 4096)
        [.unmap 0x201000, .map 0x5000 0x7000 3] ∧
      run step (boot (fun _ => 0) 8192 (fun _ => 0) (fun _ => ⟨fun _ => 0, fun _ => 0⟩) 4096)
        [.unmap 0x201000, .map 0x5000 0x7000 3] = none) ∧
    Along step Supplied
        (boot (fun _ => 0) 8192 (fun _ => 0) (fun _ => ⟨fun _ => 0, fun _ => 0⟩) 4096)
        [.map 0x201000 0x300000 3, .map 0x5000 0x7000 3] ∧
      ∃ paging, run step
          (boot (fun _ => 0) 8192 (fun _ => 0) (fun _ => ⟨fun _ => 0, fun _ => 0⟩) 4096)
          [.map 0x201000 0x300000 3, .map 0x5000 0x7000 3] = some paging ∧
        walk paging 0x5000 = some ⟨5, 1, 0⟩ ∧
        flatRun [.map 0x201000 0x300000 3, .map 0x5000 0x7000 3] (pageNumber 0x5000) =
          some ⟨7, 1, 0⟩ := by
  have low := @boot_low (fun _ => 0) 4096 (fun _ => 0) (fun _ => ⟨fun _ => 0, fun _ => 0⟩)
  have tables := (@boot_eight_megabytes (fun _ => 0) 4096 (fun _ => 0)
    (fun _ => ⟨fun _ => 0, fun _ => 0⟩)).2.2.2
  generalize boot (fun _ => 0) 8192 (fun _ => 0) (fun _ => ⟨fun _ => 0, fun _ => 0⟩) 4096 = paging
    at low tables ⊢
  obtain ⟨remaps, unmaps⟩ := low.reaches 0x201000 rfl rfl rfl 0x300000 3
  obtain ⟨remapped, unmapped⟩ := low.step 0x201000 rfl 0x300000 3
  have unmapStep : step paging (.unmap 0x201000) = some (Direct.unmapPage paging 0x201000) :=
    low.represents.step_direct unmaps
  have remapStep : step paging (.map 0x201000 0x300000 3) =
      some (Direct.mapPage paging 0x201000 0x300000 3) := low.represents.step_direct remaps
  have only : ∀ slot ≠ 0, (directory (Direct.mapPage paging 0x201000 0x300000 3)).tables slot = 0 := by
    intro slot upper
    have here : (directory paging).tables (pdIndex 0x201000) ≠ 0 := by
      rw [(low.here rfl).1]
      decide
    rw [(mapPage_existing paging.pmm 0x300000 3 here).2, tables, Function.update_of_ne upper]
  refine ⟨⟨⟨trivial, fun next taken => ⟨?_, fun _ _ => trivial⟩⟩, ?_⟩,
    ⟨low.supplied rfl 0x300000 3, fun next taken => ⟨?_, fun _ _ => trivial⟩⟩, ?_⟩
  · rw [unmapStep, Option.some.injEq] at taken
    subst taken
    exact unmapped.supplied rfl 0x7000 3
  · have fault : step (Direct.unmapPage paging 0x201000) (.map 0x5000 0x7000 3) = none := by
      apply unmapped.represents.mapPage_fault
      · rw [(unmapped.here rfl).2]
        decide
      · rw [(unmapped.here rfl).2, unmapped.represents.walk_eq]
        decide
    rw [run_cons unmapStep, run, fault]
    rfl
  · rw [remapStep, Option.some.injEq] at taken
    subst taken
    exact remapped.supplied rfl 0x7000 3
  · have landed : translate (Direct.mapPage paging 0x201000 0x300000 3)
        (513 * 4096 + 4 * ptIndex 0x5000) = some 0x300014 := by
      rw [translate, remapped.represents.walk_eq]
      decide
    obtain ⟨next, stored, represents⟩ := remapped.misses only rfl landed (by decide) 0x7000 3
    refine ⟨next, ?_, ?_, by decide⟩
    · rw [run_cons remapStep, run, step, stored]
      rfl
    · rw [represents.walk_eq]
      decide

end

end Helios.Paging
