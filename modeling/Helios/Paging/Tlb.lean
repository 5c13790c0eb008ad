import Helios.Paging.Runs

namespace Helios.Paging

open Helios.Data Helios.Pmm

/-! The translations that the processor caches.

A cached translation is kept until `invlpg` names its page or `cr3` is loaded.
`map_page` does neither.  Its own accesses to the page tables go through the cache
like all others. -/

structure Mmu where
  paging : PageManager
  tlb : Nat → Option Mapping

/-- A call of `paging.c`, a memory access that fills the cache, or a frame
taken by another client of the allocator. -/
inductive MmuOp where
  | map (vaddr paddr flags : Nat)
  | unmap (vaddr : Nat)
  | switchDirectory (dir : Nat)
  | access (vaddr : Nat)
  | alloc

/-- Where an access lands: a cached translation goes before the walk. -/
def Mmu.reach (mmu : Mmu) (paging : PageManager) (vaddr : Nat) : Option Nat :=
  ((mmu.tlb (pageNumber vaddr)).or (walk paging vaddr)).map fun mapping =>
    mapping.frame * 4096 + vaddr % 4096

/-- The accesses of `map_page` and `unmap_page` to their tables may fill the cache
as well; such a fill is an `access` before the call.  `none` is a page fault. -/
def Mmu.step (mmu : Mmu) : MmuOp → Option Mmu
  | .map vaddr paddr flags =>
      (mapPageVia mmu.reach mmu.paging vaddr paddr flags).map fun paging => ⟨paging, mmu.tlb⟩
  | .unmap vaddr =>
      (unmapPageVia mmu.reach mmu.paging vaddr).map fun paging =>
        ⟨paging, if (directory mmu.paging).tables (pdIndex vaddr) = 0 then mmu.tlb
          else Function.update mmu.tlb (pageNumber vaddr) none⟩
  | .switchDirectory dir =>
      some ⟨switchPageDirectory mmu.paging dir, if dir = 0 then mmu.tlb else fun _ => none⟩
  | .access vaddr =>
      some ⟨mmu.paging, Function.update mmu.tlb (pageNumber vaddr)
        ((mmu.tlb (pageNumber vaddr)).or (walk mmu.paging vaddr))⟩
  | .alloc => some ⟨{ mmu.paging with pmm := (allocFrame mmu.paging.pmm).1 }, mmu.tlb⟩

/-- The translation that an access uses. -/
def Mmu.translate (mmu : Mmu) (vaddr : Nat) : Option Mapping :=
  (mmu.tlb (pageNumber vaddr)).or (walk mmu.paging vaddr)

/-- The table that the operation uses is mapped to itself before it. -/
def Mmu.Reaches (mmu : Mmu) : MmuOp → Prop
  | .map vaddr paddr flags => Paging.Reaches mmu.paging (.map vaddr paddr flags)
  | .unmap vaddr => Paging.Reaches mmu.paging (.unmap vaddr)
  | _ => True

/-- Every cached translation is that of the current directory. -/
def Coherent (mmu : Mmu) : Prop :=
  ∀ vaddr mapping, mmu.tlb (pageNumber vaddr) = some mapping →
    walk mmu.paging vaddr = some mapping

/-- The mapping that `map_page` writes. -/
def mapped (paddr flags : Nat) : Mapping :=
  ⟨u32 paddr >>> 12, flagBit flags pageRw, flagBit flags pageUser⟩

/-- The cache is coherent after the operation, and an access to a page that it
has just mapped reaches the new frame. -/
structure Serves (before : Mmu) (op : MmuOp) (after : Mmu) : Prop where
  coherent : Coherent after
  reaches : ∀ vaddr paddr flags, op = .map vaddr paddr flags →
    (directory before.paging).tables (pdIndex vaddr) ≠ 0 ∨ (allocFrame before.paging.pmm).2 ≠ 0 →
    after.translate vaddr = some (mapped paddr flags)

/-- `map_page` replaces no cached translation by a different one. -/
def Replaces (mmu : Mmu) : MmuOp → Prop
  | .map vaddr paddr flags => ∀ mapping, mmu.tlb (pageNumber vaddr) = some mapping →
      mapping = mapped paddr flags
  | _ => True

section

variable {paging : PageManager} {flat : FlatMap} {mmu next : Mmu} {op : MmuOp}
variable {vaddr paddr flags dir : Nat}

/-- A wired directory represents the map that its tables hold. -/
theorem Wired.represents (wired : Wired paging.pmm (directory paging))
    (bounded : paging.pmm.totalPages ≤ 1048576) (nullUsed : paging.pmm.bitmap.test 0 = true) :
    Represents paging (fun page => lookup paging (page / 1024) (page % 1024)) := by
  refine ⟨bounded, nullUsed, wired.tables, wired.distinct, wired.absent, wired.entry, ?_⟩
  intro slot index inside
  have slotEq : (slot * 1024 + index) / 1024 = slot := by omega
  have indexEq : (slot * 1024 + index) % 1024 = index := by omega
  rw [slotEq, indexEq]

/-- Everything about a state that does not depend on what its tables hold. -/
structure Tidy (valid : Nat → Prop) (paging : PageManager) : Prop where
  bounded : paging.pmm.totalPages ≤ 1048576
  nullUsed : paging.pmm.bitmap.test 0 = true
  active : valid (activeDir paging)
  wired : ∀ dir, valid dir → Wired paging.pmm (paging.directories dir)

theorem Tidy.represents {valid : Nat → Prop} (tidy : Tidy valid paging) :
    ∃ flat, Represents paging flat :=
  ⟨_, (tidy.wired _ tidy.active).represents tidy.bounded tidy.nullUsed⟩

/-- What an operation on the current directory may do to the others. -/
structure Confined (before after : PageManager) : Prop where
  grows : Grows before.pmm after.pmm
  active : activeDir after = activeDir before
  others : ∀ dir, dir ≠ activeDir before → after.directories dir = before.directories dir

theorem Tidy.confined {valid : Nat → Prop} {after : PageManager} (tidy : Tidy valid paging)
    (confined : Confined paging after) (kept : Represents after flat) : Tidy valid after := by
  refine ⟨kept.bounded, kept.nullUsed, confined.active.symm ▸ tidy.active, fun dir known => ?_⟩
  by_cases same : dir = activeDir paging
  · subst same
    rw [← confined.active]
    exact kept.wired
  · rw [confined.others dir same]
    exact (tidy.wired dir known).grow confined.grows

theorem ensureTable_confined (paging : PageManager) (slot flags : Nat) :
    Confined paging (Direct.ensureTable paging slot flags).1 := by
  by_cases here : (directory paging).tables slot ≠ 0
  · rw [ensureTable_existing here]
    exact ⟨.refl, rfl, fun _ _ => rfl⟩
  · have empty : (directory paging).tables slot = 0 := not_not.mp here
    have grows := @allocFrame_grows paging.pmm
    cases result : allocFrame paging.pmm with
    | mk pmm table =>
        rw [result] at grows
        by_cases null : table = 0
        · subst null
          have same : Direct.ensureTable paging slot flags = ({ paging with pmm }, 0) := by
            simp [Direct.ensureTable, Direct.createPageTable, empty, result]
          rw [same]
          exact ⟨grows, rfl, fun _ _ => rfl⟩
        · rw [ensureTable_created empty result null]
          exact ⟨grows, rfl, fun dir different => Function.update_of_ne different ..⟩

theorem mapPage_confined (paging : PageManager) (vaddr paddr flags : Nat) :
    Confined paging (Direct.mapPage paging vaddr paddr flags) := by
  have confined := ensureTable_confined paging (pdIndex vaddr) flags
  rw [Direct.mapPage]
  generalize Direct.ensureTable paging (pdIndex vaddr) flags = ensured at confined
  obtain ⟨after, table⟩ := ensured
  by_cases null : table = 0
  · simpa only [null, if_true] using confined
  · simp only [null, if_false]
    exact ⟨confined.grows, confined.active, confined.others⟩

theorem unmapPage_confined (paging : PageManager) (vaddr : Nat) :
    Confined paging (Direct.unmapPage paging vaddr) := by
  rw [Direct.unmapPage]
  split
  · exact ⟨.refl, rfl, fun _ _ => rfl⟩
  · exact ⟨.refl, rfl, fun _ _ => rfl⟩

theorem coherent_iff (represents : Represents mmu.paging flat) :
    Coherent mmu ↔ ∀ vaddr mapping, mmu.tlb (pageNumber vaddr) = some mapping →
      flat (pageNumber vaddr) = some mapping := by
  simp only [Coherent, represents.walk_eq]

theorem Coherent.translate_eq (coherent : Coherent mmu) :
    mmu.translate vaddr = walk mmu.paging vaddr := by
  rw [Mmu.translate]
  cases cached : mmu.tlb (pageNumber vaddr) with
  | none => rfl
  | some mapping => rw [coherent vaddr mapping cached, Option.some_or]

/-- Where nothing stale is cached, an access lands where the walk says. -/
theorem Coherent.finds (coherent : Coherent mmu) (before : Represents mmu.paging flat)
    {after : PageManager} (kept : Represents after flat) {page : Nat} (small : page < 1048576)
    (mapped : SelfMapped mmu.paging (page * 4096)) : Finds mmu.reach after (page * 4096) := by
  intro offset inside
  rw [← before.finds kept small mapped offset inside, Mmu.reach, Paging.translate]
  cases cached : mmu.tlb (pageNumber (page * 4096 + offset)) with
  | none => rfl
  | some mapping =>
      have walked := coherent _ mapping cached
      rw [before.walk_eq, ← kept.walk_eq] at walked
      rw [walked, Option.some_or]

theorem Coherent.step_map (coherent : Coherent mmu) (before : Represents mmu.paging flat)
    (paddr flags : Nat) (reaches : mmu.Reaches (.map vaddr paddr flags)) :
    mmu.step (.map vaddr paddr flags) =
      some ⟨Direct.mapPage mmu.paging vaddr paddr flags, mmu.tlb⟩ := by
  have anywhere : ∀ after, Represents after flat → tableFor mmu.paging vaddr ≠ 0 →
      Finds mmu.reach after (tableFor mmu.paging vaddr) := by
    intro after kept found
    have mapped := reaches found
    obtain ⟨page, small, whole⟩ := before.tableFor_page found
    rw [whole] at mapped ⊢
    exact coherent.finds before kept small mapped
  rw [Mmu.step, mapPageVia_direct (anywhere _ before)
    (anywhere _ (before.ensureTable (pdIndex vaddr) flags)), Option.map_some]

theorem Coherent.step_unmap (coherent : Coherent mmu) (before : Represents mmu.paging flat)
    (reaches : mmu.Reaches (.unmap vaddr)) :
    mmu.step (.unmap vaddr) = some ⟨Direct.unmapPage mmu.paging vaddr,
      if (directory mmu.paging).tables (pdIndex vaddr) = 0 then mmu.tlb
      else Function.update mmu.tlb (pageNumber vaddr) none⟩ := by
  have direct : unmapPageVia mmu.reach mmu.paging vaddr =
      some (Direct.unmapPage mmu.paging vaddr) := by
    apply unmapPageVia_direct
    intro here
    have mapped := reaches here
    obtain ⟨page, small, whole⟩ := before.table_page here
    rw [whole] at mapped ⊢
    exact coherent.finds before before small mapped
  rw [Mmu.step, direct, Option.map_some]

theorem Coherent.map_iff (coherent : Coherent mmu) (before : Represents mmu.paging flat)
    (kept : Represents (Direct.mapPage mmu.paging vaddr paddr flags)
      (flatStep flat (.map vaddr paddr flags))) :
    Serves mmu (.map vaddr paddr flags) ⟨Direct.mapPage mmu.paging vaddr paddr flags, mmu.tlb⟩ ↔
      Replaces mmu (.map vaddr paddr flags) := by
  have here : flatStep flat (.map vaddr paddr flags) (pageNumber vaddr) =
      some (mapped paddr flags) := Function.update_self ..
  constructor
  · intro serves mapping cached
    have agrees := (coherent_iff kept).mp serves.coherent vaddr mapping cached
    exact Option.some.inj (agrees.symm.trans here)
  · intro replaces
    have agrees : Coherent ⟨Direct.mapPage mmu.paging vaddr paddr flags, mmu.tlb⟩ := by
      refine (coherent_iff kept).mpr fun other mapping cached => ?_
      by_cases same : pageNumber other = pageNumber vaddr
      · rw [same] at cached ⊢
        rw [here, replaces mapping cached]
      · have elsewhere : flatStep flat (.map vaddr paddr flags) (pageNumber other) =
            flat (pageNumber other) := Function.update_of_ne same ..
        rw [elsewhere]
        exact (coherent_iff before).mp coherent other mapping cached
    refine ⟨agrees, fun page target bits same _ => ?_⟩
    cases same
    rw [agrees.translate_eq, kept.walk_eq, here]

theorem Coherent.unmap (coherent : Coherent mmu) (before : Represents mmu.paging flat)
    (vaddr : Nat) :
    Coherent ⟨Direct.unmapPage mmu.paging vaddr, Function.update mmu.tlb (pageNumber vaddr) none⟩ := by
  have kept := before.unmapPage vaddr
  refine (coherent_iff kept).mpr fun other mapping cached => ?_
  by_cases same : pageNumber other = pageNumber vaddr
  · simp only [same, Function.update_self] at cached
    cases cached
  · simp only [Function.update_of_ne same] at cached
    have elsewhere : flatStep flat (.unmap vaddr) (pageNumber other) = flat (pageNumber other) :=
      Function.update_of_ne same ..
    rw [elsewhere]
    exact (coherent_iff before).mp coherent other mapping cached

theorem Coherent.access (coherent : Coherent mmu) (before : Represents mmu.paging flat)
    (vaddr : Nat) :
    Coherent ⟨mmu.paging, Function.update mmu.tlb (pageNumber vaddr) (mmu.translate vaddr)⟩ := by
  have agrees := (coherent_iff before).mp coherent
  have unchanged : Represents (Mmu.mk mmu.paging (Function.update mmu.tlb (pageNumber vaddr)
      (mmu.translate vaddr))).paging flat := before
  refine (coherent_iff unchanged).mpr fun other mapping cached => ?_
  by_cases same : pageNumber other = pageNumber vaddr
  · simp only [same, Function.update_self, Mmu.translate, before.walk_eq] at cached
    rw [same]
    cases held : mmu.tlb (pageNumber vaddr) with
    | none => simpa only [held, Option.none_or] using cached
    | some old =>
        rw [held, Option.some_or] at cached
        rw [agrees vaddr old held]
        exact cached
  · simp only [Function.update_of_ne same] at cached
    exact agrees other mapping cached

variable {valid : Nat → Prop}

/-- The invariant of the runs. -/
structure Served (valid : Nat → Prop) (mmu : Mmu) : Prop where
  tidy : Tidy valid mmu.paging
  coherent : Coherent mmu

theorem Served.map_iff (served : Served valid mmu) (reaches : mmu.Reaches (.map vaddr paddr flags))
    (taken : mmu.step (.map vaddr paddr flags) = some next) :
    Tidy valid next.paging ∧
      (Serves mmu (.map vaddr paddr flags) next ↔ Replaces mmu (.map vaddr paddr flags)) := by
  obtain ⟨flat, represents⟩ := served.tidy.represents
  rw [served.coherent.step_map represents paddr flags reaches, Option.some.injEq] at taken
  subst taken
  cases represents.mapPage_cases vaddr paddr flags with
  | inr kept =>
      exact ⟨served.tidy.confined (mapPage_confined ..) kept, served.coherent.map_iff represents kept⟩
  | inl failed =>
      obtain ⟨empty, exhausted, unchanged⟩ := failed
      rw [unchanged]
      refine ⟨served.tidy, fun _ mapping cached => ?_, fun _ => ⟨served.coherent, ?_⟩⟩
      · have walked := served.coherent vaddr mapping cached
        rw [walk, represents.absent _ empty] at walked
        cases walked
      · intro page target bits same supplied
        cases same
        rw [exhausted] at supplied
        simp [empty] at supplied

theorem Served.step_other (served : Served valid mmu) (unmapped : ∀ vaddr paddr flags, op ≠ .map vaddr paddr flags)
    (known : ∀ dir, op = .switchDirectory dir → dir ≠ 0 → valid dir) (reaches : mmu.Reaches op)
    (taken : mmu.step op = some next) : Served valid next := by
  obtain ⟨flat, represents⟩ := served.tidy.represents
  cases op with
  | map vaddr paddr flags => exact absurd rfl (unmapped vaddr paddr flags)
  | unmap vaddr =>
      rw [served.coherent.step_unmap represents reaches, Option.some.injEq] at taken
      subst taken
      refine ⟨served.tidy.confined (unmapPage_confined ..) (represents.unmapPage vaddr), ?_⟩
      by_cases empty : (directory mmu.paging).tables (pdIndex vaddr) = 0
      · have unchanged : Direct.unmapPage mmu.paging vaddr = mmu.paging := by
          simp only [Direct.unmapPage, empty, if_true]
        rw [if_pos empty, unchanged]
        exact served.coherent
      · rw [if_neg empty]
        exact served.coherent.unmap represents vaddr
  | switchDirectory dir =>
      cases taken
      by_cases null : dir = 0
      · simp only [switchPageDirectory, null, if_true]
        exact served
      · simp only [switchPageDirectory, null, if_false]
        refine ⟨⟨served.tidy.bounded, served.tidy.nullUsed, ?_, served.tidy.wired⟩, ?_⟩
        · simpa only [activeDir, null, if_false] using known dir rfl null
        · intro vaddr mapping cached
          cases cached
  | access vaddr =>
      cases taken
      exact ⟨served.tidy, served.coherent.access represents vaddr⟩
  | alloc =>
      cases taken
      have kept := represents.alloc
      refine ⟨served.tidy.confined ⟨allocFrame_grows, rfl, fun _ _ => rfl⟩ kept, ?_⟩
      exact (@coherent_iff flat ⟨_, mmu.tlb⟩ kept).mpr ((coherent_iff represents).mp served.coherent)

/-- Every operation keeps the invariant, and serves its callers, exactly when
it replaces no cached translation. -/
theorem Served.step (served : Served valid mmu)
    (known : ∀ dir, op = .switchDirectory dir → dir ≠ 0 → valid dir) (reaches : mmu.Reaches op)
    (taken : mmu.step op = some next) :
    Tidy valid next.paging ∧ (Serves mmu op next ↔ Replaces mmu op) := by
  by_cases maps : ∃ vaddr paddr flags, op = .map vaddr paddr flags
  · obtain ⟨vaddr, paddr, flags, same⟩ := maps
    subst same
    exact served.map_iff reaches taken
  · have unmapped : ∀ vaddr paddr flags, op ≠ .map vaddr paddr flags :=
      fun vaddr paddr flags same => maps ⟨vaddr, paddr, flags, same⟩
    have kept := served.step_other unmapped known reaches taken
    have replaces : Replaces mmu op := by
      cases op with
      | map vaddr paddr flags => exact absurd rfl (unmapped vaddr paddr flags)
      | _ => trivial
    exact ⟨kept.tidy, fun _ => replaces, fun _ => ⟨kept.coherent,
      fun vaddr paddr flags same => absurd same (unmapped vaddr paddr flags)⟩⟩

/-- A page that is mapped, accessed and mapped again is still reached in its
first frame. -/
theorem remap_stale (represents : Represents mmu.paging flat) (coherent : Coherent mmu)
    (uncached : mmu.tlb (pageNumber vaddr) = none)
    (supplied : (directory mmu.paging).tables (pdIndex vaddr) ≠ 0 ∨
      (allocFrame mmu.paging.pmm).2 ≠ 0) (first second flags : Nat)
    (reaches : Reaches mmu.paging (.map vaddr first flags))
    (again : Reaches (Direct.mapPage mmu.paging vaddr first flags) (.map vaddr second flags)) :
    ∃ middle final, run Mmu.step mmu [.map vaddr first flags, .access vaddr] = some middle ∧
      middle.step (.map vaddr second flags) = some final ∧
      final.translate vaddr = some (mapped first flags) ∧
      walk final.paging vaddr = some (mapped second flags) := by
  have once := represents.mapPage_supplied vaddr first flags supplied
  have walked : walk (Direct.mapPage mmu.paging vaddr first flags) vaddr = some (mapped first flags) := by
    rw [once.walk_eq]
    exact Function.update_self ..
  have here : (directory (Direct.mapPage mmu.paging vaddr first flags)).tables (pdIndex vaddr) ≠ 0 := by
    intro empty
    rw [walk, once.absent _ empty] at walked
    cases walked
  have twice := once.mapPage_supplied vaddr second flags (.inl here)
  have rewalked : walk (Direct.mapPage (Direct.mapPage mmu.paging vaddr first flags) vaddr second flags) vaddr =
      some (mapped second flags) := by
    rw [twice.walk_eq]
    exact Function.update_self ..
  have stored : Coherent ⟨Direct.mapPage mmu.paging vaddr first flags, mmu.tlb⟩ :=
    ((coherent.map_iff represents once).mpr fun _ cached => by
      rw [uncached] at cached
      cases cached).coherent
  have accessed := stored.access once vaddr
  have filled : Mmu.translate ⟨Direct.mapPage mmu.paging vaddr first flags, mmu.tlb⟩ vaddr =
      some (mapped first flags) := by
    simp only [Mmu.translate, uncached, Option.none_or, walked]
  rw [filled] at accessed
  refine ⟨⟨Direct.mapPage mmu.paging vaddr first flags,
    Function.update mmu.tlb (pageNumber vaddr) (some (mapped first flags))⟩, _, ?_,
    accessed.step_map once second flags again, ?_, rewalked⟩
  · rw [run_cons (coherent.step_map represents first flags reaches)]
    simp only [run, Mmu.step, Option.bind_some, uncached, Option.none_or, walked]
  · have cached : Function.update mmu.tlb (pageNumber vaddr) (some (mapped first flags))
        (pageNumber vaddr) = some (mapped first flags) := Function.update_self ..
    simp only [Mmu.translate, cached, Option.some_or]

end

/-- From any state with well-formed directories and a coherent cache, and after
any run whose operations find their tables mapped to themselves and whose
`map_page` calls replace no cached translation by another, the next operation
leaves the cache coherent, with a mapped page reached in its new frame, exactly
when it is no such call itself. -/
theorem tlb_coherent_iff (start final next : Mmu) (ops : List MmuOp) (op : MmuOp)
    (bounded : start.paging.pmm.totalPages ≤ 1048576)
    (nullUsed : start.paging.pmm.bitmap.test 0 = true)
    (wired : ∀ dir, dir = activeDir start.paging ∨ .switchDirectory dir ∈ op :: ops →
      Wired start.paging.pmm (start.paging.directories dir))
    (coherent : Coherent start)
    (reaches : Along Mmu.step Mmu.Reaches start ops)
    (replaced : Along Mmu.step Replaces start ops)
    (reached : run Mmu.step start ops = some final)
    (reachesLast : final.Reaches op) (taken : final.step op = some next) :
    Coherent final ∧ (Serves final op next ↔ Replaces final op) := by
  have served : Served (fun dir => dir = activeDir start.paging ∨ .switchDirectory dir ∈ op :: ops)
      start := ⟨⟨bounded, nullUsed, .inl rfl, wired⟩, coherent⟩
  have known : Along Mmu.step (fun _ op' => ∀ dir, op' = .switchDirectory dir → dir ≠ 0 →
      dir = activeDir start.paging ∨ .switchDirectory dir ∈ op :: ops) start ops :=
    .of_forall fun other member _ dir same _ => .inr (by simp [← same, member])
  have kept := run_invariant _ ((reaches.and replaced).and known) served
    (fun _ _ _ served allowed taken =>
      have step := served.step allowed.2 allowed.1.1 taken
      ⟨step.1, (step.2.mpr allowed.1.2).coherent⟩) reached
  exact ⟨kept.coherent, (kept.step (fun dir same _ => .inr (by simp [same])) reachesLast taken).2⟩

/-- Nothing is cached. -/
def Mmu.cold (paging : PageManager) : Mmu := ⟨paging, fun _ => none⟩

theorem tlb_coherent_iff_boot :
    ∃ final next, run Mmu.step
        (.cold (boot (fun _ => 0) 8192 (fun _ => 0) (fun _ => ⟨fun _ => 0, fun _ => 0⟩) 4096))
        [.access 0x1000] = some final ∧
      final.step (.map 0x1000 0x5000 7) = some next ∧
      (Serves final (.map 0x1000 0x5000 7) next ↔ Replaces final (.map 0x1000 0x5000 7)) := by
  have low := @boot_low (fun _ => 0) 4096 (fun _ => 0) (fun _ => ⟨fun _ => 0, fun _ => 0⟩)
  generalize boot (fun _ => 0) 8192 (fun _ => 0) (fun _ => ⟨fun _ => 0, fun _ => 0⟩) 4096 = paging
    at low ⊢
  have represents := low.represents
  have reaches : Reaches paging (.map 0x1000 0x5000 7) := (low.lands rfl rfl rfl 0x5000 7).2
  have coherent : Coherent (.cold paging) := fun _ _ cached => by cases cached
  have accessed := coherent.access represents 0x1000
  refine ⟨_, _, rfl, accessed.step_map represents 0x5000 7 reaches, ?_⟩
  refine (tlb_coherent_iff (.cold paging) _ _ [.access 0x1000] (.map 0x1000 0x5000 7)
    represents.bounded represents.nullUsed (fun dir used => ?_) coherent
    ⟨trivial, fun _ _ => trivial⟩ ⟨trivial, fun _ _ => trivial⟩ rfl reaches
    (accessed.step_map represents 0x5000 7 reaches)).2
  cases used with
  | inl same =>
      subst same
      exact represents.wired
  | inr switched => simp at switched

/-- A program is loaded a second time, with a new frame for its first page: the
copy goes to the old frame. -/
theorem second_load_reaches_old_frame :
    ∃ middle final, run Mmu.step
        (.cold (boot (fun _ => 0) 8192 (fun _ => 0) (fun _ => ⟨fun _ => 0, fun _ => 0⟩) 4096))
        [.map 0x400000 0x202000 7, .access 0x400000] = some middle ∧
      middle.step (.map 0x400000 0x204000 7) = some final ∧
      final.translate 0x400000 = some ⟨0x202, 1, 1⟩ ∧
      ¬ Serves middle (.map 0x400000 0x204000 7) final := by
  obtain ⟨represents, sequential, total, tables⟩ := @boot_eight_megabytes (fun _ => 0) 4096
    (fun _ => 0) (fun _ => ⟨fun _ => 0, fun _ => 0⟩)
  generalize boot (fun _ => 0) 8192 (fun _ => 0) (fun _ => ⟨fun _ => 0, fun _ => 0⟩) 4096 = paging
    at represents sequential total tables
  have allocated := sequential.allocFrame_eq (by omega)
  have empty : (directory paging).tables (pdIndex 0x400000) = 0 := by
    rw [tables]
    rfl
  have available : (allocFrame paging.pmm).2 ≠ 0 := by
    rw [allocated]
    simp
  -- The new table is in the frame 514, which stays mapped to itself.
  have once := represents.mapPage_supplied 0x400000 0x202000 7 (.inr available)
  have created := (@mapPage_created paging (514 * 4096) 0x400000 paging.pmm _ 0x202000 7 empty allocated
    (by decide)).2
  have first : Reaches paging (.map 0x400000 0x202000 7) := by
    intro _
    rw [tableFor, if_neg (not_not.mpr empty), allocated]
    exact represents.selfMapped_iff.mpr
      ⟨⟨514, 1, 0⟩, (show identityFlat (pageNumber (514 * 4096)) = _ by decide), rfl⟩
  have again : Reaches (Direct.mapPage paging 0x400000 0x202000 7) (.map 0x400000 0x204000 7) := by
    intro found
    have table : tableFor (Direct.mapPage paging 0x400000 0x202000 7) 0x400000 = 514 * 4096 := by
      rw [tableFor, created, Function.update_self]
      rfl
    rw [table]
    exact once.selfMapped_iff.mpr ⟨⟨514, 1, 0⟩, by decide, rfl⟩
  obtain ⟨middle, final, reached, taken, stale, walked⟩ :=
    @remap_stale identityFlat (.cold paging) 0x400000 represents (fun _ _ cached => by cases cached)
      rfl (.inr available) 0x202000 0x204000 7 first again
  refine ⟨middle, final, reached, taken, stale, fun serves => ?_⟩
  rw [serves.coherent.translate_eq, walked] at stale
  revert stale
  decide

end Helios.Paging
