import Helios.Exec.Ownership

namespace Helios.Exec

open Helios.Data Helios.Pmm Helios.Paging

/-! What a loaded program can read of the earlier contents of its frames.

Two states that differ in their free frames alone take the same steps; only the
bytes that a load does not write can differ in the end. -/

/-- A frame that `alloc_frame` may hand out. -/
def Free (pmm : PmmManager) (page : Nat) : Prop :=
  page < pmm.totalPages ∧ pmm.bitmap.test page = false

/-- The memory differs from the state's own in free frames only. -/
def SameButFree (start : PageManager) (memory : Memory) : Prop :=
  ∀ address, ¬ Free start.pmm (address / 4096) → memory address = start.memory address

/-- The bytes that the first `count` pages of a load found in use or wrote. -/
def Known (start : PageManager) (size : Nat) (frames : Nat → Nat) (count address : Nat) : Prop :=
  ¬ Free start.pmm (address / 4096) ∨ ∃ index < count,
    frames index * 4096 ≤ address ∧ address < frames index * 4096 + loadBytes size index

/-- A read in user mode, which both levels of the walk must permit. -/
def userRead (paging : PageManager) (vaddr : Nat) : Option UInt8 :=
  if user ((directory paging).entries (pdIndex vaddr)) = 0 then none
  else
    (walk paging vaddr).bind fun mapping =>
      if mapping.user = 0 then none
      else some (paging.memory (mapping.frame * 4096 + vaddr % 4096))

/-- The image lies in frames in use, at pages that the load does not replace. -/
def Stored (start : PageManager) (entry : RamdiskEntry) : Prop :=
  ∀ index < entry.size,
    (∀ page < codePages entry.size, pageNumber (loadVaddr entry.size page) ≠
      pageNumber (u32 (entry.data + index))) ∧
    ∀ address, translate start (u32 (entry.data + index)) = some address →
      ¬ Free start.pmm (address / 4096)

/-- After two successful loads from states that differ in free frames only, the
code pages and the stack page read the same in user mode. -/
def RevealsNothing (ramdisk : Ramdisk) (path : List UInt8) (start : PageManager) (size : Nat) : Prop :=
  ∀ memory, SameButFree start memory → ∀ left right,
    ramdiskLoad ramdisk path start = some (.done left) →
    ramdiskLoad ramdisk path { start with memory } = some (.done right) →
    ∀ vaddr, Remapped size (pageNumber vaddr) → userRead left vaddr = userRead right vaddr

/-- The directory entry of a slot keeps user mode out. -/
def KernelOnly (start : PageManager) (slot : Nat) : Prop :=
  (directory start).tables slot ≠ 0 ∧ user ((directory start).entries slot) = 0

/-- User mode cannot reach the stack page, nor the page behind the end of the code. -/
structure Hidden (start : PageManager) (size : Nat) : Prop where
  stack : KernelOnly start (pdIndex (stackVaddr - 0x1000)) ∨ ¬ StackBacked start size
  tail : size % 4096 = 0 ∨ KernelOnly start (loadSlot size (size / 4096))

section

variable {start paging after : PageManager} {flat : FlatMap} {frames : Nat → Nat}
variable {known : Nat → Prop} {memory : Memory} {code size off count fuel page frame : Nat}

theorem mapPage_agrees {pmm : PmmManager} (agrees : Agrees known paging memory)
    (represents : Represents { paging with pmm } flat) (vaddr paddr flags : Nat) :
    ∃ stored, Direct.mapPage { paging with pmm, memory } vaddr paddr flags =
        { Direct.mapPage { paging with pmm } vaddr paddr flags with memory := stored } ∧
      Agrees known (Direct.mapPage { paging with pmm } vaddr paddr flags) stored :=
  @Agrees.mapPage { paging with pmm } flat known memory agrees represents vaddr paddr flags

theorem loadPage_agrees (agrees : Agrees known paging memory) (represents : Represents paging flat)
    (aligned : off % 4096 = 0) (more : off < size) (small : size < 4294967296)
    (sources : ∀ offset < chunkSize size off,
      pageNumber (u32 (u32 (code + off) + offset)) ≠ pageNumber (u32 (userBase + off)) ∧
        ∀ source, translate paging (u32 (u32 (code + off) + offset)) = some source → known source)
    (loaded : loadPage directMap paging code size off = .done after) :
    ∃ frame table filled, PageLoaded paging after flat (u32 (userBase + off)) (chunkSize size off)
        frame table ∧
      loadPage directMap { paging with memory } code size off = .done { after with memory := filled } ∧
      Agrees (fun address => known address ∨
        frame * 4096 ≤ address ∧ address < frame * 4096 + chunkSize size off) after filled := by
  obtain ⟨pmm, frame, table, result, notNull, grows, mapped, copied⟩ :=
    loadPage_steps represents more small loaded
  have target := mapped.target represents (u32_aligned aligned) (u32_lt _)
  obtain ⟨copy, same, filledTarget, confined⟩ := target.memcpy chunkSize_le copied
  obtain ⟨stored, twin, agree⟩ := mapPage_agrees agrees (represents.grow grows)
    (u32 (userBase + off)) (frame * 4096) userFlags
  have sources : ∀ offset < chunkSize size off, ∀ source,
      translate (Direct.mapPage { paging with pmm } (u32 (userBase + off)) (frame * 4096) userFlags)
        (u32 (u32 (code + off) + offset)) = some source → known source := by
    intro offset less source readable
    obtain ⟨outside, itsKnown⟩ := sources offset less
    rw [translate_eq mapped.represents, Function.update_of_ne outside,
      ← translate_eq represents] at readable
    exact itsKnown source readable
  obtain ⟨filled, twinCopy, agreed⟩ := target.memcpy_agrees chunkSize_le agree sources copied
  refine ⟨frame, table, filled, ?_, ?_, agreed⟩
  · rw [same]
    exact mapped.fill filledTarget confined
  · rw [← twin] at twinCopy
    exact (loadPage_eq_done (show allocFrame { paging with memory }.pmm = _ from result)
      notNull).mpr twinCopy

theorem loadStack_agrees (agrees : Agrees known paging memory) (represents : Represents paging flat)
    (loaded : loadStack directMap paging = .done after) :
    ∃ filled, loadStack directMap { paging with memory } = .done { after with memory := filled } ∧
      Agrees known after filled := by
  cases allocFrame_fresh represents.bounded represents.nullUsed with
  | inl failed => simp [loadStack_exhausted failed] at loaded
  | inr taken =>
      obtain ⟨frame, inside, clear, _, result, notNull⟩ := taken
      have grows : Grows paging.pmm (take paging.pmm frame) := take_grows
      generalize take paging.pmm frame = pmm at result grows
      obtain ⟨stored, twin, agree⟩ := mapPage_agrees agrees (represents.grow grows)
        (stackVaddr - 0x1000) (frame * 4096) userFlags
      rw [loadStack_direct result notNull, Outcome.done.injEq] at loaded
      subst loaded
      refine ⟨stored, ?_, agree⟩
      have alike : allocFrame { paging with memory }.pmm = (pmm, frame * 4096) := result
      rw [loadStack_direct alike notNull, Outcome.done.injEq]
      exact twin

variable {entry : RamdiskEntry}

theorem Stored.source (stored : Stored start entry) (represents : Represents start flat)
    (placed : Placed start flat entry.size frames count paging) (code : count < codePages entry.size)
    (small : entry.size < 4294967296) {offset : Nat}
    (less : offset < chunkSize entry.size (count * 4096)) :
    pageNumber (u32 (u32 (entry.data + count * 4096) + offset)) ≠
        pageNumber (u32 (userBase + count * 4096)) ∧
      ∀ source, translate paging (u32 (u32 (entry.data + count * 4096) + offset)) = some source →
        Known start entry.size frames count source := by
  rw [chunkSize_eq (lt_codePages.mp code) small] at less
  have address : u32 (u32 (entry.data + count * 4096) + offset) =
      u32 (entry.data + (count * 4096 + offset)) := by
    simp only [u32]
    omega
  obtain ⟨apart, unused⟩ := stored (count * 4096 + offset) (by omega)
  rw [address, ← loadVaddr_code code]
  refine ⟨(apart count code).symm, fun source readable => .inl (unused source ?_)⟩
  rw [translate_eq placed.represents] at readable
  rw [translate_eq represents]
  cases loadedFlat_cases flat entry.size frames count
      (pageNumber (u32 (entry.data + (count * 4096 + offset)))) with
  | inl mapped =>
      obtain ⟨index, before, same, _⟩ := mapped
      exact absurd same (apart index (by omega))
  | inr untouched =>
      rw [untouched.2] at readable
      exact readable

theorem Loading.next_page_agrees (loading : Loading start flat entry.size frames count paging)
    (stored : Stored start entry) (more : count < codePages entry.size)
    (small : entry.size < 4294967296) (agrees : Agrees (Known start entry.size frames count) paging memory)
    (loaded : loadPage directMap paging entry.data entry.size (count * 4096) = .done after) :
    ∃ frame table filled, NextPage paging after flat entry.size frames count frame table ∧
      loadPage directMap { paging with memory } entry.data entry.size (count * 4096) =
        .done { after with memory := filled } ∧
      Agrees (Known start entry.size (Function.update frames count frame) (count + 1)) after filled := by
  obtain ⟨frame, table, filled, page, twin, agreed⟩ := loadPage_agrees agrees
    loading.placed.represents (by omega) (lt_codePages.mp more) small
    (fun offset less => stored.source loading.ready.represents loading.placed more small less) loaded
  rw [← loadVaddr_code more, ← loadBytes_code more] at page
  refine ⟨frame, table, filled, page, twin, agreed.mono fun address within => .inl ?_⟩
  obtain old | ⟨index, less, lower, upper⟩ := within
  · exact .inl (.inl old)
  · by_cases here : index = count
    · rw [here, Function.update_self] at lower upper
      rw [loadBytes_code more] at upper
      exact .inr ⟨lower, upper⟩
    · rw [Function.update_of_ne here] at lower upper
      exact .inl (.inr ⟨index, by omega, lower, upper⟩)

theorem Loading.all_pages_agrees (loading : Loading start flat entry.size frames count paging)
    (stored : Stored start entry) (below : count ≤ codePages entry.size)
    (small : entry.size < 4294967296) (agrees : Agrees (Known start entry.size frames count) paging memory)
    (loaded : loadPages directMap fuel paging entry.data entry.size (count * 4096) = some (.done after)) :
    ∃ frames filled, Loading start flat entry.size frames (codePages entry.size) after ∧
      loadPages directMap fuel { paging with memory } entry.data entry.size (count * 4096) =
        some (.done { after with memory := filled }) ∧
      Agrees (Known start entry.size frames (codePages entry.size)) after filled := by
  induction fuel generalizing paging count frames memory with
  | zero => cases loaded
  | succ fuel ih =>
      by_cases less : count * 4096 < entry.size
      · have more := lt_codePages.mpr less
        obtain ⟨middle, body, rest⟩ := (loadPages_more less).mp loaded
        obtain ⟨_, _, _, _, next⟩ := loading.next_page more small body
        obtain ⟨frame, table, filled, page, twin, agreed⟩ :=
          loading.next_page_agrees stored more small agrees body
        rw [next] at rest
        obtain ⟨frames, last, done, twinRest, agree⟩ := ih (loading.step page) more agreed rest
        rw [← next] at twinRest
        exact ⟨frames, last, done, (loadPages_more less).mpr ⟨_, twin, twinRest⟩, agree⟩
      · have whole := mt lt_codePages.mp less
        rw [loadPages_end less] at loaded
        cases loaded
        rw [show codePages entry.size = count by omega]
        exact ⟨frames, memory, loading, loadPages_end less, agrees⟩

variable {ramdisk : Ramdisk} {path : List UInt8}

theorem SameButFree.agrees (same : SameButFree start memory) (represents : Represents start flat) :
    Agrees (Known start size frames 0) start memory := by
  intro address within
  apply same
  intro free
  cases within with
  | inl known =>
      obtain unused | ⟨index, less, _⟩ := known
      · exact unused free
      · exact absurd less (Nat.not_lt_zero index)
  | inr inTable => exact represents.clear_apart free.2 inTable

theorem loadImage_agrees (ready : Ready start flat) (found : search ramdisk path = some entry)
    (stored : Stored start entry) (same : SameButFree start memory)
    (loads : loadImage directMap ramdisk path start = some (.done after)) :
    ∃ frames count filled, Settled start flat entry.size frames count after ∧
      loadImage directMap ramdisk path { start with memory } = some (.done { after with memory := filled }) ∧
      Agrees (Known start entry.size frames count) after filled := by
  obtain ⟨other, middle, here, data, pages, stack⟩ := loadImage_eq_done.mp loads
  rw [found, Option.some.injEq] at here
  subst here
  have short := loadPages_small pages (by decide) (by decide)
  have small : entry.size < 4294967296 := by omega
  have initial : Loading start flat entry.size (fun _ => 0) 0 start := loading_start ready
  obtain ⟨frames, filled, loading, twin, agreed⟩ := initial.all_pages_agrees stored
    (Nat.zero_le _) small (same.agrees ready.represents) pages
  obtain ⟨last, twinStack, agreedStack⟩ :=
    loadStack_agrees agreed loading.placed.represents stack
  have both : loadImage directMap ramdisk path { start with memory } =
      some (.done { after with memory := last }) :=
    loadImage_eq_done.mpr ⟨entry, _, found, data, twin, twinStack⟩
  cases loadStack_done loading.placed.represents stack with
  | inl mapped =>
      obtain ⟨frame, table, _, page⟩ := mapped
      rw [← @loadVaddr_stack entry.size, ← @loadBytes_stack entry.size] at page
      refine ⟨_, _, last, (loading.step page).settled, both,
        agreedStack.mono fun address known => .inl ?_⟩
      obtain unused | ⟨index, less, lower, upper⟩ := known
      · exact .inl unused
      · by_cases newest : index = codePages entry.size
        · rw [newest, loadBytes_stack] at upper
          rw [newest] at lower
          omega
        · rw [Function.update_of_ne newest] at lower upper
          exact .inr ⟨index, by omega, lower, upper⟩
  | inr lost =>
      obtain ⟨frame, lost⟩ := lost
      exact ⟨frames, _, last, loading.settled_lost lost, both, agreedStack⟩

/-- The state with other contents in its free frames. -/
theorem SameButFree.ready (same : SameButFree start memory) (ready : Ready start flat) :
    Ready { start with memory } flat := by
  refine ⟨ready.represents.outside fun address inTable => same address fun free => ?_,
    ready.balanced, ready.reserved⟩
  exact ready.represents.clear_apart free.2 inTable

theorem supplies_memory : supplies { start with memory } size count = supplies start size count := by
  induction count with
  | zero => rfl
  | succ count ih => rw [supplies, supplies, ih]

theorem SameButFree.reached (same : SameButFree start memory) (ready : Ready start flat)
    (reached : TablesReached start size) : TablesReached { start with memory } size := by
  have twin := (same.ready ready).represents
  intro index below notNull
  rw [loadTable, supplies_memory, ← loadTable] at notNull ⊢
  obtain ⟨mapped, apart⟩ := reached index below notNull
  exact ⟨twin.selfMapped_iff.mpr (ready.represents.selfMapped_iff.mp mapped), apart⟩

/-- Two loads from states that differ in free frames only. -/
theorem ramdiskLoad_agrees (ready : Ready start flat) (found : search ramdisk path = some entry)
    (reached : TablesReached start entry.size) (stored : Stored start entry)
    (same : SameButFree start memory) (loads : ramdiskLoad ramdisk path start = some (.done after)) :
    ∃ frames count filled, Settled start flat entry.size frames count after ∧
      ramdiskLoad ramdisk path { start with memory } = some (.done { after with memory := filled }) ∧
      Agrees (Known start entry.size frames count) after filled := by
  obtain ⟨direct, short, _⟩ := ramdiskLoad_loaded ready found reached loads
  obtain ⟨frames, count, filled, settled, twin, agrees⟩ :=
    loadImage_agrees ready found stored same direct
  rw [← ramdiskLoad_direct (same.ready ready).represents found short (same.reached ready reached)] at twin
  exact ⟨frames, count, filled, settled, twin, agrees⟩

theorem userRead_eq (represents : Represents after flat) (agrees : Agrees known after memory)
    (vaddr : Nat)
    (bytes : user ((directory after).entries (pdIndex vaddr)) ≠ 0 → ∀ mapping,
      walk after vaddr = some mapping →
      memory (mapping.frame * 4096 + vaddr % 4096) =
        after.memory (mapping.frame * 4096 + vaddr % 4096)) :
    userRead after vaddr = userRead { after with memory } vaddr := by
  have walks := agrees.walk_eq represents vaddr
  have dirs : directory { after with memory } = directory after := rfl
  rw [userRead, userRead, walks, dirs]
  by_cases kernel : user ((directory after).entries (pdIndex vaddr)) = 0
  · rw [if_pos kernel, if_pos kernel]
  · rw [if_neg kernel, if_neg kernel]
    cases walked : walk after vaddr with
    | none => rfl
    | some mapping => simp only [Option.bind_some, bytes kernel mapping walked]

theorem userRead_open {vaddr : Nat} (isOpen : user ((directory after).entries (pdIndex vaddr)) ≠ 0)
    (walked : walk after vaddr = some ⟨frame, 1, 1⟩) :
    userRead after vaddr = some (after.memory (frame * 4096 + vaddr % 4096)) := by
  rw [userRead, if_neg isOpen, walked]
  rfl

theorem Placed.kernelOnly (placed : Placed start flat size frames count paging) {slot : Nat}
    (kernel : KernelOnly start slot) : user ((directory paging).entries slot) = 0 := by
  cases placed.tables slot with
  | inl same =>
      rw [same.2]
      exact kernel.2
  | inr added => exact absurd added.empty kernel.1

/-- A loaded page is open to user mode, unless its slot was closed before. -/
theorem Placed.open (placed : Placed start flat size frames count paging) {index : Nat}
    (less : index < count) (reachable : ¬ KernelOnly start (loadSlot size index)) :
    user ((directory paging).entries (loadSlot size index)) ≠ 0 := by
  cases placed.tables (loadSlot size index) with
  | inl same =>
      intro kernel
      have served := placed.served index less
      rw [same.1] at served
      rw [same.2] at kernel
      exact reachable ⟨served, kernel⟩
  | inr added =>
      rw [added.itsUser]
      decide

/-- Where the bytes that a load leaves are hidden, user mode reads the same. -/
theorem Settled.userRead_eq (settled : Settled start flat size frames count after)
    (agrees : Agrees (Known start size frames count) after memory) (small : size < 4294967296)
    (hidden : Hidden start size) {vaddr : Nat} (remapped : Remapped size (pageNumber vaddr)) :
    userRead after vaddr = userRead { after with memory } vaddr := by
  refine Exec.userRead_eq settled.placed.represents agrees vaddr fun isOpen mapping walked => ?_
  have stack := settled.stack
  have code := settled.code
  cases settled.walk_cases vaddr with
  | inl mapped =>
      obtain ⟨index, less, same, result⟩ := mapped
      rw [result, Option.some.injEq] at walked
      subst walked
      have slot : pdIndex vaddr = loadSlot size index := pdIndex_of_page same.symm
      rw [slot] at isOpen
      by_cases copied : vaddr % 4096 < loadBytes size index
      · exact agrees _ (.inl (.inr ⟨index, less, Nat.le_add_right _ _, Nat.add_lt_add_left copied _⟩))
      · by_cases itsCode : index < codePages size
        · have more := lt_codePages.mp itsCode
          rw [loadBytes_eq itsCode small] at copied
          cases hidden.tail with
          | inl whole => omega
          | inr kernel =>
              rw [show size / 4096 = index by omega] at kernel
              exact absurd (settled.placed.kernelOnly kernel) isOpen
        · cases hidden.stack with
          | inl kernel =>
              rw [← @loadSlot_stack size, show codePages size = index by omega] at kernel
              exact absurd (settled.placed.kernelOnly kernel) isOpen
          | inr unbacked => exact absurd (settled.backed.mpr (by omega)) unbacked
  | inr untouched =>
      obtain ⟨index, below, same⟩ := remapped
      have itsStack : ¬ index < count := fun less => untouched.1 index less same
      rw [show index = codePages size by omega, loadVaddr_stack] at same
      have empty := settled.unmapped (by omega)
      rw [walk, ← pdIndex_of_page same, settled.placed.represents.absent _ empty] at walked
      cases walked

/-- The number of mapped pages does not depend on memory. -/
theorem Settled.count_eq {first second : Nat → Nat} {other : PageManager} {number : Nat}
    (settled : Settled start flat size first count after)
    (twin : Settled { start with memory } flat size second number other) : number = count := by
  have backed : StackBacked start size ↔ codePages size < number := twin.backed
  have low := settled.code
  have high := settled.stack
  have twinLow := twin.code
  have twinHigh := twin.stack
  rw [settled.backed] at backed
  omega

/-- A byte that a load leaves in a page that user mode can read. -/
theorem Settled.reveals (settled : Settled start flat entry.size frames count after)
    (found : search ramdisk path = some entry) (reached : TablesReached start entry.size)
    (stored : Stored start entry) (loads : ramdiskLoad ramdisk path start = some (.done after))
    {index offset : Nat}
    (less : index < count)
    (apart : index < codePages entry.size → codePages entry.size < count →
      pageNumber (loadVaddr entry.size index) ≠ pageNumber (stackVaddr - 0x1000))
    (reachable : ¬ KernelOnly start (loadSlot entry.size index)) (inside : offset < 4096)
    (left : loadBytes entry.size index ≤ offset) :
    ¬ RevealsNothing ramdisk path start entry.size := by
  intro nothing
  obtain ⟨bounded, clear, _⟩ := settled.placed.fresh index less
  have whole : (frames index * 4096 + offset) / 4096 = frames index := by omega
  obtain ⟨byte, different⟩ : ∃ byte : UInt8, byte ≠ start.memory (frames index * 4096 + offset) := by
    by_cases null : start.memory (frames index * 4096 + offset) = 0
    · exact ⟨1, by rw [null]; decide⟩
    · exact ⟨0, Ne.symm null⟩
  have same : SameButFree start (start.memory.store8 (frames index * 4096 + offset) byte) := by
    intro address unused
    apply Memory.store8_other
    intro equal
    rw [equal, whole] at unused
    exact unused ⟨bounded, clear⟩
  obtain ⟨_, _, filled, _, twin, agrees⟩ :=
    ramdiskLoad_agrees settled.ready found reached stored same loads
  obtain ⟨others, number, twinSettled⟩ := (ramdiskLoad_loaded (same.ready settled.ready) found
    (same.reached settled.ready reached) twin).2.2.settled
  have counts := settled.count_eq twinSettled
  subst counts
  have page := @pageNumber_offset entry.size index offset inside
  have walked := settled.walk_mapped less page apart
  have twinWalked := twinSettled.walk_mapped less page apart
  have sameFrame : others index = frames index := by
    rw [agrees.walk_eq settled.placed.represents, walked] at twinWalked
    exact (congrArg Mapping.frame (Option.some.inj twinWalked)).symm
  have read := nothing _ same after _ loads twin (loadVaddr entry.size index + offset)
    ⟨index, Nat.lt_of_lt_of_le less settled.stack, page.symm⟩
  have aligned := @loadVaddr_aligned entry.size index
  have position : (loadVaddr entry.size index + offset) % 4096 = offset := by omega
  have isOpen := settled.placed.open less reachable
  rw [loadSlot, ← pdIndex_of_page page] at isOpen
  have twinOpen := twinSettled.placed.open less reachable
  rw [loadSlot, ← pdIndex_of_page page] at twinOpen
  rw [userRead_open isOpen walked, userRead_open twinOpen twinWalked, position, sameFrame,
    Option.some.injEq, settled.placed.tail index less offset inside left] at read
  have tail := twinSettled.placed.tail index less offset inside left
  rw [sameFrame] at tail
  exact different ((tail.trans Memory.store8_same).symm.trans read.symm)

theorem oneByte_stored (represents : Represents start identityFlat)
    (sequential : Sequential start.pmm count) (high : 256 < count) :
    Stored start ⟨some [115, 104], 0x100000, 1⟩ := by
  intro index less
  have first : index = 0 := Nat.lt_one_iff.mp less
  subst first
  have page : pageNumber (u32 (0x100000 + 0)) = 256 := by decide
  refine ⟨fun code below => ?_, fun address readable free => ?_⟩
  · rw [pageNumber_code below, page]
    have only : code = 0 := Nat.lt_one_iff.mp below
    omega
  · rw [translate_eq represents, page] at readable
    simp only [identityFlat, Nat.reduceLT, if_true, Option.map_some, Option.some.injEq] at readable
    have frame : address / 4096 = 256 := by
      rw [← readable]
      decide
    rw [Free, frame, sequential.test 256 (Nat.lt_of_lt_of_le high sequential.inside)] at free
    simp [high] at free

/-- Two loads from states that differ in their free frames, both of which reach
their tables, show the same to user mode exactly when user mode reaches neither
the stack page nor the last page of the code, or the code ends with its page. -/
theorem load_reveals_nothing_iff (ramdisk : Ramdisk) (path : List UInt8) (start after : PageManager)
    (flat : FlatMap) (entry : RamdiskEntry) (ready : Ready start flat)
    (found : search ramdisk path = some entry) (stored : Stored start entry)
    (reached : TablesReached start entry.size)
    (loads : ramdiskLoad ramdisk path start = some (.done after)) :
    RevealsNothing ramdisk path start entry.size ↔ Hidden start entry.size := by
  obtain ⟨_, short, loaded⟩ := ramdiskLoad_loaded ready found reached loads
  have small : entry.size < 4294967296 := by omega
  constructor
  · intro nothing
    obtain ⟨frames, count, settled⟩ := loaded.settled
    have stack : KernelOnly start (pdIndex (stackVaddr - 0x1000)) ∨ ¬ StackBacked start entry.size := by
      by_contra visible
      rw [not_or, not_not, ← @loadSlot_stack entry.size, settled.backed] at visible
      exact settled.reveals found reached stored loads visible.2
        (fun less => absurd less (Nat.lt_irrefl _)) visible.1 (show 0 < 4096 by decide)
        (Nat.le_of_eq loadBytes_stack) nothing
    refine ⟨stack, ?_⟩
    by_contra visible
    rw [not_or] at visible
    have last : entry.size / 4096 < codePages entry.size := lt_codePages.mpr (by omega)
    refine settled.reveals found reached stored loads (Nat.lt_of_lt_of_le last settled.code)
      (fun _ mapped same => ?_) visible.2 (Nat.mod_lt entry.size (show 0 < 4096 by decide)) ?_ nothing
    · have kernel := stack.resolve_right (not_not.mpr (settled.backed.mpr mapped))
      rw [← pdIndex_of_page same] at kernel
      exact visible.2 kernel
    · rw [loadBytes_eq last small]
      omega
  · intro hidden memory same left right leftLoads rightLoads vaddr remapped
    rw [loads, Option.some.injEq, Outcome.done.injEq] at leftLoads
    subst leftLoads
    obtain ⟨frames, count, filled, settled, twin, agrees⟩ :=
      ramdiskLoad_agrees ready found reached stored same loads
    rw [twin, Option.some.injEq, Outcome.done.injEq] at rightLoads
    subst rightLoads
    exact settled.userRead_eq agrees small hidden remapped

theorem load_reveals_nothing_iff_oneByte :
    ∃ start after, run Paging.step (boot (fun _ => 0) 8192 (fun _ => 0)
        (fun _ => ⟨fun _ => 0, fun _ => 0⟩) 4096) (List.replicate 0 .alloc) = some start ∧
      ramdiskLoad oneByteDisk [115, 104] start = some (.done after) ∧
      (RevealsNothing oneByteDisk [115, 104] start 1 ↔ Hidden start 1) := by
  obtain ⟨start, after, reached, ready, sequential, _, _, found, loads⟩ := boot_loads
  exact ⟨start, after, reached, loads, load_reveals_nothing_iff oneByteDisk [115, 104] start after
    identityFlat ⟨some [115, 104], 0x100000, 1⟩ ready rfl
    (oneByte_stored ready.represents sequential (by omega)) found loads⟩

/-- After boot the stack page of a program shows what its frame held before. -/
theorem stack_page_revealed :
    ∃ start after, run Paging.step (boot (fun _ => 0) 8192 (fun _ => 0)
        (fun _ => ⟨fun _ => 0, fun _ => 0⟩) 4096) (List.replicate 0 .alloc) = some start ∧
      ramdiskLoad oneByteDisk [115, 104] start = some (.done after) ∧
      Stored start ⟨some [115, 104], 0x100000, 1⟩ ∧
      ¬ RevealsNothing oneByteDisk [115, 104] start 1 := by
  obtain ⟨start, after, reached, ready, sequential, total, tables, found, loads⟩ := boot_loads
  have free := sequential.freePages
  have stored := oneByte_stored ready.represents sequential (by omega)
  refine ⟨start, after, reached, loads, stored, ?_⟩
  have image : search oneByteDisk [115, 104] = some ⟨some [115, 104], 0x100000, 1⟩ := rfl
  obtain ⟨frames, count, settled⟩ := (ramdiskLoad_loaded ready image found loads).2.2.settled
  have mapped := settled.backed.mp (stackBacked_free (by omega))
  refine settled.reveals image found stored loads mapped (fun less => absurd less (Nat.lt_irrefl _)) ?_
    (show 0 < 4096 by decide) (Nat.le_of_eq loadBytes_stack)
  intro kernel
  apply kernel.1
  rw [tables, loadSlot_stack, Function.update_of_ne (by decide)]

end

end Helios.Exec
