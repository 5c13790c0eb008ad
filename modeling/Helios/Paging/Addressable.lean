import Helios.Paging.Runs

namespace Helios.Paging

open Helios.Data Helios.Pmm

/-! When the tables of `map_page` stay mapped to themselves. -/

/-- Every address of the frame is mapped to itself, present and writable. -/
def Addressable (paging : PageManager) (table : Nat) : Prop :=
  ∀ offset < 4096, ∃ user, walk paging (table + offset) = some ⟨table / 4096, 1, user⟩

/-- The flat map of the operations that took effect. -/
def flatTrace (paging : PageManager) (flat : FlatMap) : List Op → FlatMap
  | [] => flat
  | op :: rest =>
      match step paging op with
      | none => flat
      | some next => flatTrace next (if Supplied paging op then flatStep flat op else flat) rest

section

variable {paging next : PageManager} {flat : FlatMap} {ops : List Op} {op : Op}
variable {vaddr paddr flags table page offset slot : Nat}

theorem Represents.run_trace (represents : Represents paging flat)
    (reaches : Along Paging.step Reaches paging ops)
    (reached : run Paging.step paging ops = some next) :
    Represents next (flatTrace paging flat ops) := by
  induction ops generalizing paging flat with
  | nil =>
      cases reached
      exact represents
  | cons op rest ih =>
      obtain ⟨here, later⟩ := reaches
      obtain ⟨middle, taken, rest⟩ := run_cons_eq_some.mp reached
      simp only [flatTrace, taken]
      exact ih (represents.step_any here taken) (later middle taken) rest

theorem Represents.addressable_iff (represents : Represents paging flat) (small : page < 1048576) :
    Addressable paging (page * 4096) ↔ ∃ user, flat page = some ⟨page, 1, user⟩ := by
  have whole : page * 4096 / 4096 = page := by omega
  constructor
  · intro addressable
    obtain ⟨user, walked⟩ := addressable 0 (by decide)
    rw [represents.walk_eq, pageNumber_of_page small (by decide), whole] at walked
    exact ⟨user, walked⟩
  · intro mapped offset inside
    obtain ⟨user, mapped⟩ := mapped
    refine ⟨user, ?_⟩
    rw [represents.walk_eq, pageNumber_of_page small inside, whole]
    exact mapped

theorem Addressable.selfMapped (addressable : Addressable paging (page * 4096)) :
    SelfMapped paging (page * 4096) := by
  obtain ⟨user, walked⟩ := addressable 0 (by decide)
  rw [Nat.add_zero] at walked
  exact ⟨_, walked, Nat.div_mul_cancel (Nat.dvd_mul_left 4096 page)⟩

/-- After a run whose operations found their tables mapped to themselves, the
frame that `map_page` zeroes and writes through is mapped to itself, at the
`memset` and at the entry store, exactly when the operations so far leave its
page mapped to itself and writable; then the stores reach that frame. -/
theorem table_addressable_iff (contents : Bitmap) (totalMemoryKb : Nat) (memory : Memory)
    (directories : Nat → Directory) (kernelPageDir : Nat) (ops : List Op) (paging : PageManager)
    (vaddr paddr flags : Nat)
    (available : (allocFrame (initPmm contents totalMemoryKb)).2 ≠ 0)
    (reaches : Along step Reaches
      (boot contents totalMemoryKb memory directories kernelPageDir) ops)
    (reached : run step (boot contents totalMemoryKb memory directories kernelPageDir) ops =
      some paging)
    (exists_table : tableFor paging vaddr ≠ 0) :
    (Addressable paging (tableFor paging vaddr) ∧
        Addressable (Direct.ensureTable paging (pdIndex vaddr) flags).1 (tableFor paging vaddr) ∧
        mapPage paging vaddr paddr flags = some (Direct.mapPage paging vaddr paddr flags)) ↔
      ∃ user, flatTrace (boot contents totalMemoryKb memory directories kernelPageDir) identityFlat
        ops (tableFor paging vaddr / 4096) = some ⟨tableFor paging vaddr / 4096, 1, user⟩ := by
  have represents : Represents paging (flatTrace
      (boot contents totalMemoryKb memory directories kernelPageDir) identityFlat ops) :=
    (boot_represents available).run_trace reaches reached
  obtain ⟨page, small, whole⟩ := represents.tableFor_page exists_table
  have number : page * 4096 / 4096 = page := by omega
  rw [whole, number, ← represents.addressable_iff small]
  constructor
  · intro holds
    exact holds.1
  · intro before
    have kept := represents.ensureTable (pdIndex vaddr) flags
    have after : Addressable (Direct.ensureTable paging (pdIndex vaddr) flags).1 (page * 4096) := by
      rw [represents.addressable_iff small] at before
      exact (kept.addressable_iff small).mpr before
    refine ⟨before, after, represents.mapPage_direct paddr flags fun _ => ?_⟩
    rw [whole]
    exact before.selfMapped

theorem along_allocs {number : Nat} : Along step Reaches paging (List.replicate number .alloc) := by
  refine .of_forall fun op member state => ?_
  rw [List.eq_of_mem_replicate member]
  trivial

theorem run_allocs {count number : Nat} (sequential : Sequential paging.pmm count)
    (room : count + number ≤ paging.pmm.totalPages) :
    ∃ pmm, run step paging (List.replicate number .alloc) = some { paging with pmm } ∧
      Sequential pmm (count + number) ∧ pmm.totalPages = paging.pmm.totalPages := by
  induction number generalizing paging count with
  | zero => exact ⟨paging.pmm, rfl, sequential, rfl⟩
  | succ number ih =>
      have available : count < paging.pmm.totalPages := by omega
      have taken := sequential.take available
      have result := sequential.allocFrame_eq available
      have total : (take paging.pmm count).totalPages = paging.pmm.totalPages := take_totalPages
      generalize take paging.pmm count = middle at taken result total
      obtain ⟨pmm, reached, later, same⟩ :=
        @ih { paging with pmm := middle } (count + 1) taken (by simp only [total]; omega)
      refine ⟨pmm, ?_, by rw [show count + (number + 1) = count + 1 + number by omega]; exact later,
        same.trans total⟩
      rw [List.replicate_succ]
      simp only [run, step, result, Option.bind_some]
      exact reached

theorem flatTrace_allocs {number : Nat} :
    flatTrace paging flat (List.replicate number .alloc) = flat := by
  induction number generalizing paging with
  | zero => rfl
  | succ number ih =>
      rw [List.replicate_succ, flatTrace]
      simp only [step, Supplied, flatStep]
      exact ih

theorem tableFor_empty {pmm : PmmManager} (empty : (directory paging).tables (pdIndex vaddr) = 0) :
    tableFor { paging with pmm } vaddr = (allocFrame pmm).2 :=
  if_neg (not_not.mpr empty)

theorem tableFor_allocs {contents : Bitmap} {memory : Memory} {directories : Nat → Directory}
    {kernelPageDir number : Nat} (upper : pdIndex vaddr ≠ 0) (room : 514 + number < 2048) :
    ∃ paging, run step (boot contents 8192 memory directories kernelPageDir)
        (List.replicate number .alloc) = some paging ∧
      tableFor paging vaddr = (514 + number) * 4096 := by
  obtain ⟨_, sequential, total, tables⟩ :=
    @boot_eight_megabytes contents kernelPageDir memory directories
  have enough : 514 + number ≤
      (boot contents 8192 memory directories kernelPageDir).pmm.totalPages := by omega
  obtain ⟨pmm, reached, later, same⟩ := run_allocs sequential enough
  refine ⟨_, reached, ?_⟩
  have empty : (directory (boot contents 8192 memory directories kernelPageDir)).tables
      (pdIndex vaddr) = 0 := by
    rw [tables, Function.update_of_ne upper]
  have result := later.allocFrame_eq (by rw [same, total]; omega)
  rw [tableFor_empty empty, result]

theorem table_addressable_iff_first_table :
    ∃ paging, run step
        (boot (fun _ => 0) 8192 (fun _ => 0) (fun _ => ⟨fun _ => 0, fun _ => 0⟩) 4096)
        (List.replicate 0 .alloc) = some paging ∧
      tableFor paging 0x800000 = 514 * 4096 ∧ Addressable paging (tableFor paging 0x800000) := by
  obtain ⟨paging, reached, table⟩ := @tableFor_allocs 0x800000 (fun _ => 0) (fun _ => 0)
    (fun _ => ⟨fun _ => 0, fun _ => 0⟩) 4096 0 (by decide) (by decide)
  have iff := table_addressable_iff (fun _ => 0) 8192 (fun _ => 0)
    (fun _ => ⟨fun _ => 0, fun _ => 0⟩) 4096 (List.replicate 0 .alloc) paging 0x800000 0 3
    (boot_available room_eight_megabytes) along_allocs reached (by rw [table]; decide)
  refine ⟨paging, reached, table, (iff.mpr ⟨0, ?_⟩).1⟩
  rw [table, flatTrace_allocs]
  decide

/-- Once the frames below four megabytes are gone, a new table is not mapped. -/
theorem table_above_four_megabytes :
    ∃ paging, run step
        (boot (fun _ => 0) 8192 (fun _ => 0) (fun _ => ⟨fun _ => 0, fun _ => 0⟩) 4096)
        (List.replicate 510 .alloc) = some paging ∧
      tableFor paging 0x800000 = 1024 * 4096 ∧ walk paging (tableFor paging 0x800000) = none := by
  obtain ⟨paging, reached, table⟩ := @tableFor_allocs 0x800000 (fun _ => 0) (fun _ => 0)
    (fun _ => ⟨fun _ => 0, fun _ => 0⟩) 4096 510 (by decide) (by decide)
  have represents := (boot_represents (boot_available room_eight_megabytes)).run_trace along_allocs reached
  refine ⟨paging, reached, table, ?_⟩
  rw [represents.walk_eq, table, flatTrace_allocs]
  decide

end

end Helios.Paging
