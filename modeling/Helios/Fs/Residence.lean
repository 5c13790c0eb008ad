import Helios.Fs.Storage

namespace Helios.Fs

open Helios.Data Helios.Strings FileSystem

/-! The records of the file system in the memory of the heap, and what keeps
them there. -/

/-- A `file_t` in memory. -/
structure FileAt (memory : Memory) (block : Address) (file : File) : Prop where
  inode : memory.load32 block = file.inode
  mode : memory.load32 (block + 4) = file.mode
  pos : memory.load32 (block + 8) = file.pos
  flags : memory.load32 (block + 12) = file.flags

/-- A `mounted_fs_t` in memory. -/
structure MountAt (memory : Memory) (block : Address) (mounted : MountedFs Address) : Prop where
  device : FieldAt memory block 32 mounted.device
  mountpoint : FieldAt memory (block + 32) 256 mounted.mountpoint
  ends : mounted.mountpoint.val.length < 256
  sb : pointerAt memory (block + 288) = mounted.sb
  next : pointerAt memory (block + 300) = mounted.next

/-- The blocks that the mount list, its superblocks and the table account for. -/
def Owns (fs : FileSystem Address) (list : List Address) (block : Address) : Prop :=
  block ∈ list ∨ (∃ mount ∈ list, (fs.mounted mount).sb = some block) ∨
    ∃ index, fs.openFiles index = some block

structure Stored (session : Heap.Session) (fs : FileSystem Address) (list : List Address) :
    Prop where
  reached : Heap.Reachable session
  sound : Sound fs list
  owned : ∀ block ∈ fs.live, Owns fs list block
  allocated : ∀ block ∈ fs.live, ∃ size, ⟨block, size⟩ ∈ session.live
  mounts : ∀ block ∈ list, ⟨block, mountSize⟩ ∈ session.live ∧
    MountAt session.heap.memory block (fs.mounted block)
  files : ∀ index block, fs.openFiles index = some block →
    ⟨block, fileSize⟩ ∈ session.live ∧ FileAt session.heap.memory block (fs.file block)

/-- What a call of `kmalloc` hands out: a payload apart from all others. -/
structure Handed (session next : Heap.Session) (size : Nat) (granted : Option Address) : Prop where
  moved : Heap.Moved session next (fun _ => False) (fun _ => False)
  member : ∀ block, granted = some block → ⟨block, size⟩ ∈ next.live
  others : ∀ block, granted = some block → ∀ allocation ∈ session.live, allocation.pointer ≠ block

/-- The blocks handed out once `kmalloc` has answered. -/
def withAnswer (live : Finset Address) (answer : Option Address) : Finset Address :=
  answer.elim live (insert · live)

/-- The pointers of the blocks. -/
def Held (live : Finset Address) (pointer : Nat) : Prop := ∃ block ∈ live, pointer = block

/-- The allocations of others are neither freed nor written nor taken over. -/
structure Spares (session next : Heap.Session) (live later : Finset Address) : Prop where
  moved : Heap.Moved session next (Held live) (Held live)
  apart : ∀ allocation ∈ session.live, Held later allocation.pointer → Held live allocation.pointer

/-- The session after `prev->next` is stored, if there is a `prev`. -/
def relinked (session : Heap.Session) (prev next : Option Address) : Heap.Session :=
  match prev with
  | some prev => storing session fun memory => memory.store32 (prev + 300) (pointerWord next)
  | none => session

section

variable {session next : Heap.Session} {fs : FileSystem Address} {list front back : List Address}
variable {block other : Address} {granted pointer : Option Address} {size address : Nat}
variable {memory after : Memory} {file : File} {entry : MountedFs Address}
variable {device mountpoint : CString} {freed written : Nat → Prop}

theorem pointerAt_congr (agree : after.load32 address = memory.load32 address) :
    pointerAt after address = pointerAt memory address := by
  rw [pointerAt, pointerAt, agree]

theorem pointerAt_store32 (proper : pointer ≠ some 0) :
    pointerAt (memory.store32 address (pointerWord pointer)) address = pointer := by
  cases pointer with
  | none => rw [pointerWord, pointerAt, Memory.load32_store32_same (by decide), if_pos rfl]
  | some block =>
      have nonzero : (block : Nat) ≠ 0 := fun same => proper (congrArg some (Fin.ext same))
      rw [pointerWord, pointerAt, Memory.load32_store32_same block.isLt, if_neg nonzero]
      exact congrArg some (Fin.ext (Nat.mod_eq_of_lt block.isLt))

theorem FileAt.congr (stored : FileAt memory block file)
    (agree : ∀ position : Nat, block ≤ position → position < block + fileSize →
      after position = memory position) : FileAt after block file := by
  have word : ∀ offset, offset + 4 ≤ fileSize →
      after.load32 (block + offset) = memory.load32 (block + offset) := fun offset inside =>
    Memory.load32_congr fun position lower upper => agree position (by omega) (by omega)
  exact ⟨(word 0 (by decide)).trans stored.inode, (word 4 (by decide)).trans stored.mode,
    (word 8 (by decide)).trans stored.pos, (word 12 (by decide)).trans stored.flags⟩

theorem MountAt.congr (stored : MountAt memory block entry)
    (agree : ∀ position : Nat, block ≤ position → position < block + mountSize →
      after position = memory position) : MountAt after block entry := by
  rw [mountSize] at agree
  have word : ∀ offset, offset + 4 ≤ 304 →
      after.load32 (block + offset) = memory.load32 (block + offset) := fun offset inside =>
    Memory.load32_congr fun position lower upper => agree position (by omega) (by omega)
  exact ⟨stored.device.congr fun position lower upper => agree position (by omega) (by omega),
    stored.mountpoint.congr fun position lower upper => agree position (by omega) (by omega),
    stored.ends, (pointerAt_congr (word 288 (by decide))).trans stored.sb,
    (pointerAt_congr (word 300 (by decide))).trans stored.next⟩

/-- Another link is stored in a `mounted_fs_t`. -/
theorem MountAt.relinked (stored : MountAt memory block entry) (proper : pointer ≠ some 0) :
    MountAt (memory.store32 (block + 300) (pointerWord pointer)) block
      { entry with next := pointer } where
  device := stored.device.congr fun position lower upper => Memory.store32_other (by omega)
  mountpoint := stored.mountpoint.congr fun position lower upper => Memory.store32_other (by omega)
  ends := stored.ends
  sb := (pointerAt_congr (Memory.load32_store32_other (by omega))).trans stored.sb
  next := pointerAt_store32 proper

theorem MountAt.superblock (stored : MountAt memory block entry) (proper : pointer ≠ some 0) :
    MountAt (memory.store32 (block + 288) (pointerWord pointer)) block
      { entry with sb := pointer } where
  device := stored.device.congr fun position lower upper => Memory.store32_other (by omega)
  mountpoint := stored.mountpoint.congr fun position lower upper => Memory.store32_other (by omega)
  ends := stored.ends
  sb := pointerAt_store32 proper
  next := (pointerAt_congr (Memory.load32_store32_other (by omega))).trans stored.next

theorem bounds (reached : Heap.Reachable session) (live : ⟨block, size⟩ ∈ session.live) :
    16 ≤ (block : Nat) ∧ block + size ≤ 4294967296 := by
  obtain ⟨blocks, consistent⟩ := reached.consistent
  obtain ⟨_, inside, _, room⟩ := consistent.payload live
  obtain ⟨_, _, backs⟩ := consistent.backed _ live
  have positive := backs.pointer
  have bounded := consistent.heap.bounded
  simp only at inside room positive
  exact ⟨by omega, by omega⟩

/-- A call of `kmalloc` hands out nothing, or an allocation that nobody has. -/
theorem allocate_handed (reached : Heap.Reachable session) (bound : size ≤ 0xFFFFFFE8) :
    ∃ next granted, allocate session size = some (next, granted) ∧
      Handed session next size granted := by
  obtain ⟨blocks, consistent⟩ := reached.consistent
  obtain ⟨⟨heap, pointer⟩, taken⟩ :=
    Option.isSome_iff_exists.mp (consistent.heap.kmalloc_isSome size)
  obtain ⟨moved, fresh⟩ := reached.moved_kmalloc bound taken
  by_cases null : pointer = 0
  · rw [if_pos null] at moved
    refine ⟨⟨heap, session.live⟩, none, ?_, moved, fun _ handed => absurd handed (by simp),
      fun _ handed => absurd handed (by simp)⟩
    simp only [allocate, taken, Option.map_some, if_pos null]
  · rw [if_neg null] at moved
    obtain ⟨small, others⟩ := fresh null
    have value : (Fin.ofNat 4294967296 pointer : Nat) = pointer := Nat.mod_eq_of_lt small
    refine ⟨⟨heap, ⟨pointer, size⟩ :: session.live⟩, some (Fin.ofNat 4294967296 pointer), ?_, moved,
      fun block handed => ?_, fun block handed => ?_⟩
    · simp only [allocate, taken, Option.map_some, if_neg null]
    · rw [← Option.some.inj handed, value]
      exact List.mem_cons_self
    · rw [← Option.some.inj handed, value]
      exact others

theorem release_moved (reached : Heap.Reachable session) (live : ⟨block, size⟩ ∈ session.live) :
    Heap.Moved session (release session block) (· = block) (fun _ => False) := by
  obtain ⟨blocks, consistent⟩ := reached.consistent
  have moved := reached.moved_kfree live
  rwa [← Heap.eraseP_pointer consistent.distinct live] at moved

theorem storing_moved {store : Memory → Memory} (reached : Heap.Reachable session)
    (live : ⟨block, size⟩ ∈ session.live)
    (confined : Memory.Confined block (block + size) session.heap.memory
      (store session.heap.memory)) :
    Heap.Moved session (storing session store) (fun _ => False) (· = block) :=
  reached.moved_setMemory live confined

section

variable {middle : Heap.Session} {live now later : Finset Address}

theorem Spares.keeps {allocation : Heap.Allocation} (spares : Spares session next live later)
    (member : allocation ∈ session.live) (others : ¬Held live allocation.pointer) :
    allocation ∈ next.live ∧ ¬Held later allocation.pointer :=
  ⟨spares.moved.stays allocation member others,
    fun held => others (spares.apart allocation member held)⟩

theorem Spares.trans (first : Spares session middle live now)
    (second : Spares middle next now later) : Spares session next live later := by
  refine ⟨⟨first.moved.steps.trans second.moved.steps, fun allocation member others => ?_,
    fun allocation member others _ position lower upper => ?_⟩, fun allocation member held => ?_⟩
  · obtain ⟨still, apart⟩ := first.keeps member others
    exact (second.keeps still apart).1
  · obtain ⟨still, apart⟩ := first.keeps member others
    exact (second.moved.bytes allocation still apart apart position lower upper).trans
      (first.moved.bytes allocation member others others position lower upper)
  · by_contra others
    obtain ⟨still, apart⟩ := first.keeps member others
    exact (second.keeps still apart).2 held

/-- Blocks that were held already are freed and written, and some given up. -/
theorem spares_of_moved (moved : Heap.Moved session next freed written)
    (more : ∀ address, freed address → Held live address)
    (also : ∀ address, written address → Held live address) (less : later ⊆ live) :
    Spares session next live later where
  moved := moved.mono more also
  apart := fun _ _ ⟨block, member, same⟩ => ⟨block, less member, same⟩

theorem Spares.refl : Spares session session live live :=
  spares_of_moved (Heap.Moved.refl session) (fun _ => False.elim) (fun _ => False.elim) subset_rfl

theorem Handed.spares (handed : Handed session next size granted) :
    Spares session next live (withAnswer live granted) := by
  refine ⟨handed.moved.mono (fun _ => False.elim) fun _ => False.elim,
    fun allocation member ⟨block, taken, same⟩ => ?_⟩
  cases granted with
  | none => exact ⟨block, taken, same⟩
  | some fresh =>
      rcases Finset.mem_insert.mp taken with rfl | earlier
      · exact absurd same (handed.others block rfl allocation member)
      · exact ⟨block, earlier, same⟩

theorem storing_spares {store : Memory → Memory} (reached : Heap.Reachable session)
    (member : ⟨block, size⟩ ∈ session.live)
    (confined : Memory.Confined block (block + size) session.heap.memory
      (store session.heap.memory)) (held : block ∈ live) :
    Spares session (storing session store) live live :=
  spares_of_moved (storing_moved reached member confined) (fun _ => False.elim)
    (fun _ same => ⟨block, held, same⟩) subset_rfl

theorem release_spares (reached : Heap.Reachable session) (member : ⟨block, size⟩ ∈ session.live)
    (held : block ∈ live) (less : later ⊆ live) : Spares session (release session block) live later :=
  spares_of_moved (release_moved reached member) (fun _ same => ⟨block, held, same⟩)
    (fun _ => False.elim) less

end

theorem storeFile_confined :
    Memory.Confined block (block + fileSize) memory (storeFile memory block file) := by
  unfold storeFile fileSize
  refine Memory.Confined.store32 ?_ le_rfl (by omega)
  refine Memory.Confined.store32 ?_ (by omega) (by omega)
  refine Memory.Confined.store32 ?_ (by omega) (by omega)
  refine Memory.Confined.store32 ?_ (by omega) (by omega)
  exact Memory.Confined.refl.fill le_rfl le_rfl

theorem storePos_confined {pos : Nat} : Memory.Confined block (block + fileSize) memory
    (memory.store32 (block + 8) pos) :=
  Memory.Confined.refl.store32 (by omega) (by rw [fileSize]; omega)

theorem storeMount_confined : Memory.Confined block (block + mountSize) memory
    (storeMount memory block device mountpoint pointer) := by
  unfold storeMount mountSize
  refine Memory.Confined.store32 ?_ (by omega) (by omega)
  refine Memory.Confined.trans ?_ (strncpyAt_confined.mono (by omega) (by omega))
  refine Memory.Confined.trans ?_ (strncpyAt_confined.mono le_rfl (by omega))
  exact Memory.Confined.refl.fill le_rfl le_rfl

theorem storeRoot_confined : Memory.Confined block (block + mountSize) memory
    (storeRoot memory block) := by
  unfold storeRoot mountSize
  refine Memory.Confined.store32 ?_ (by omega) (by omega)
  refine Memory.Confined.trans ?_ (strncpyAt_confined.mono (by omega) (by simp [rootName]))
  refine Memory.Confined.trans ?_ (strncpyAt_confined.mono le_rfl (by simp [ramName]))
  exact Memory.Confined.refl.fill le_rfl le_rfl

theorem storeSuperblock_confined : Memory.Confined block (block + superblockSize) memory
    (storeSuperblock memory block) := by
  unfold storeSuperblock superblockSize
  refine Memory.Confined.trans ?_ (strncpyAt_confined.mono (by omega) (by simp [rootVolume]))
  refine Memory.Confined.store32 ?_ (by omega) (by omega)
  refine Memory.Confined.store32 ?_ (by omega) (by omega)
  refine Memory.Confined.store32 ?_ (by omega) (by omega)
  refine Memory.Confined.store32 ?_ (by omega) (by omega)
  refine Memory.Confined.store32 ?_ (by omega) (by omega)
  refine Memory.Confined.store32 ?_ (by omega) (by omega)
  refine Memory.Confined.store32 ?_ (by omega) (by omega)
  refine Memory.Confined.store32 ?_ (by omega) (by omega)
  refine Memory.Confined.store32 ?_ le_rfl (by omega)
  exact Memory.Confined.refl.fill le_rfl le_rfl

/-- The fields fit their words. -/
structure File.Small (file : File) : Prop where
  inode : file.inode < 4294967296
  mode : file.mode < 4294967296
  pos : file.pos < 4294967296
  flags : file.flags < 4294967296

theorem newFile_small {path : CString} {flags : Int} : (newFile path flags).Small := by
  refine ⟨?_, ?_, Nat.zero_lt_succ _, Nat.zero_lt_succ _⟩
  · show inodeOf path < 4294967296
    unfold inodeOf
    split_ifs <;> decide
  · show (flags % 4294967296).toNat < 4294967296
    omega

theorem storeFile_at (small : file.Small) : FileAt (storeFile memory block file) block file := by
  unfold storeFile
  refine ⟨Memory.load32_store32_same small.inode, ?_, ?_, ?_⟩
  · rw [Memory.load32_store32_other (by omega), Memory.load32_store32_other (by omega),
      Memory.load32_store32_other (by omega), Memory.load32_store32_same small.mode]
  · rw [Memory.load32_store32_other (by omega), Memory.load32_store32_other (by omega),
      Memory.load32_store32_same small.pos]
  · rw [Memory.load32_store32_other (by omega), Memory.load32_store32_same small.flags]

/-- A record of two strings and a link, in memory that was zeroed before. -/
theorem mountAt_of_copies {count more : Nat} (first : count < 32) (second : more < 256)
    (proper : pointer ≠ some 0) :
    MountAt ((strncpyAt (strncpyAt (memory.fill block mountSize 0) block device count) (block + 32)
        mountpoint more).store32 (block + 300) (pointerWord pointer)) block
      ⟨strncpy device count, strncpy mountpoint more, none, pointer⟩ := by
  have zeroed : ∀ position : Nat, block ≤ position → position < block + mountSize →
      memory.fill block mountSize 0 position = 0 := fun position => Memory.fill_inside
  rw [mountSize] at zeroed ⊢
  refine ⟨?_, ?_, ?_, ?_, pointerAt_store32 proper⟩
  · refine (strncpyAt_field fun index inside => zeroed _ (by omega) (by omega)).congr
      fun position lower upper => ?_
    rw [Memory.store32_other (by omega), strncpyAt_other (by omega)]
  · refine (strncpyAt_field fun index inside => ?_).congr
      fun position lower upper => Memory.store32_other (by omega)
    rw [strncpyAt_other (by omega), zeroed _ (by omega) (by omega)]
  · show (mountpoint.val.take more).length < 256
    rw [List.length_take]
    omega
  · rw [pointerAt, Memory.load32_store32_other (by omega), load32_strncpyAt (by omega),
      load32_strncpyAt (by omega), Memory.load32_fill_zero (by omega) (by omega), if_pos rfl]

theorem storeMount_at (proper : pointer ≠ some 0) :
    MountAt (storeMount memory block device mountpoint pointer) block
      ⟨strncpy device 31, strncpy mountpoint 255, none, pointer⟩ :=
  mountAt_of_copies (by decide) (by decide) proper

theorem storeRoot_at :
    MountAt (storeRoot memory block) block ⟨ramName, rootName, none, none⟩ :=
  @mountAt_of_copies block none memory ramName rootName 5 2 (by decide) (by decide) (by simp)

section

variable {index : Nat} {answer : Option Address} {other : Address}

theorem fillFile_self : (fs.fillFile block file).file block = file := Function.update_self _ _ _

theorem fillFile_other (different : other ≠ block) :
    (fs.fillFile block file).file other = fs.file other := Function.update_of_ne different _ _

theorem freeFile_file : (fs.freeFile block).file = fs.file := rfl

theorem setOpen_file : (fs.setOpen index answer).file = fs.file := rfl

theorem setOpen_self : (fs.setOpen index answer).openFiles index = answer :=
  Function.update_self _ _ _

theorem setOpen_other {position : Nat} (different : position ≠ index) :
    (fs.setOpen index answer).openFiles position = fs.openFiles position :=
  Function.update_of_ne different _ _

theorem setPos_self {pos : Nat} :
    (setPos fs block pos).file block = { fs.file block with pos } := Function.update_self _ _ _

theorem setPos_other {pos : Nat} (different : other ≠ block) :
    (setPos fs block pos).file other = fs.file other := Function.update_of_ne different _ _

end

namespace Stored

theorem proper (stored : Stored session fs list) (live : block ∈ fs.live) : some block ≠ some 0 := by
  obtain ⟨size, member⟩ := stored.allocated block live
  have positive := (bounds stored.reached member).1
  rintro same
  rw [Option.some.inj same] at positive
  exact absurd positive (by decide)

theorem link_proper (stored : Stored session fs (front ++ block :: back)) :
    fs.link block ≠ some 0 := by
  intro null
  have later := stored.sound.chain.rest.head_eq
  rw [null] at later
  have listed : (0 : Address) ∈ front ++ block :: back := by
    simp [List.mem_of_mem_head? later.symm]
  exact stored.proper (stored.sound.mounts 0 listed) rfl

theorem head_proper (stored : Stored session fs list) : fs.mountedFsList ≠ some 0 := by
  intro null
  have first := stored.sound.chain.head_eq
  rw [null] at first
  exact stored.proper (stored.sound.mounts 0 (List.mem_of_mem_head? first.symm)) rfl

/-- The heap moves on and leaves the blocks of the file system alone. -/
theorem moved (stored : Stored session fs list) (moved : Heap.Moved session next freed written)
    (spared : ∀ block ∈ fs.live, ¬freed block) (unwritten : ∀ block ∈ fs.live, ¬written block) :
    Stored next fs list where
  reached := stored.reached.steps moved.steps
  sound := stored.sound
  owned := stored.owned
  allocated block live := by
    obtain ⟨size, member⟩ := stored.allocated block live
    exact ⟨size, moved.stays _ member (spared block live)⟩
  mounts block listed := by
    obtain ⟨member, record⟩ := stored.mounts block listed
    have live := stored.sound.mounts block listed
    exact ⟨moved.stays _ member (spared block live),
      record.congr (moved.bytes _ member (spared block live) (unwritten block live))⟩
  files index block here := by
    obtain ⟨member, record⟩ := stored.files index block here
    have live := (stored.sound.files index block here).1
    exact ⟨moved.stays _ member (spared block live),
      record.congr (moved.bytes _ member (spared block live) (unwritten block live))⟩

theorem outside (fresh : block ∉ fs.live) : ∀ other ∈ fs.live, ¬(other : Nat) = block :=
  fun _ live same => fresh (Fin.ext same ▸ live)

/-- A block that the file system has given up is freed. -/
theorem released (stored : Stored session fs list) (gone : block ∉ fs.live)
    (member : ⟨block, size⟩ ∈ session.live) : Stored (release session block) fs list :=
  stored.moved (release_moved stored.reached member) (outside gone) fun _ _ => id

/-- A block that the file system does not have yet is filled in. -/
theorem stores (stored : Stored session fs list) (store : Memory → Memory) (fresh : block ∉ fs.live)
    (member : ⟨block, size⟩ ∈ session.live)
    (confined : Memory.Confined block (block + size) session.heap.memory
      (store session.heap.memory)) : Stored (storing session store) fs list :=
  stored.moved (storing_moved stored.reached member confined) (fun _ _ => id) (outside fresh)

theorem fresh (stored : Stored session fs list) (handed : Handed session next size (some block)) :
    block ∉ fs.live := by
  intro live
  obtain ⟨_, allocated⟩ := stored.allocated block live
  exact handed.others block rfl _ allocated rfl

/-- A call of `kmalloc` leaves the records alone. -/
theorem allocates (stored : Stored session fs list) (bound : size ≤ 0xFFFFFFE8) :
    ∃ next granted, allocate session size = some (next, granted) ∧
      Handed session next size granted ∧ Stored next fs list := by
  obtain ⟨next, granted, taken, handed⟩ := allocate_handed stored.reached bound
  exact ⟨next, granted, taken, handed, stored.moved handed.moved (fun _ _ => id) fun _ _ => id⟩

theorem mounted (stored : Stored session fs list) (fresh : block ∉ fs.live)
    (member : ⟨block, mountSize⟩ ∈ session.live)
    (record : MountAt session.heap.memory block
      ⟨strncpy device 31, strncpy mountpoint 255, none, fs.mountedFsList⟩) :
    Stored session (addMount fs block device mountpoint) (block :: list) where
  reached := stored.reached
  sound := stored.sound.addMount fresh
  owned other live := by
    rcases addMount_live.mp live with rfl | live
    · exact .inl List.mem_cons_self
    · rcases stored.owned other live with listed | ⟨mount, listed, sb⟩ | opened
      · exact .inl (List.mem_cons_of_mem _ listed)
      · have different : mount ≠ block := fun same =>
          fresh (same ▸ stored.sound.mounts mount listed)
        refine .inr (.inl ⟨mount, List.mem_cons_of_mem _ listed, ?_⟩)
        rw [addMount_other different]
        exact sb
      · exact .inr (.inr opened)
  allocated other live := by
    rcases addMount_live.mp live with rfl | live
    · exact ⟨mountSize, member⟩
    · exact stored.allocated other live
  mounts other listed := by
    rcases List.mem_cons.mp listed with rfl | earlier
    · rw [addMount_self]
      exact ⟨member, record⟩
    · have different : other ≠ block := fun same =>
        fresh (same ▸ stored.sound.mounts other earlier)
      rw [addMount_other different]
      exact stored.mounts other earlier
  files := stored.files

theorem opened {index : Nat} (stored : Stored session fs list) (fresh : block ∉ fs.live)
    (inside : index < maxFiles) (free : fs.openFiles index = none)
    (member : ⟨block, fileSize⟩ ∈ session.live) (record : FileAt session.heap.memory block file) :
    Stored session ((fs.fillFile block file).setOpen index (some block)) list where
  reached := stored.reached
  sound := stored.sound.opened fresh inside free
  owned other live := by
    rcases Finset.mem_insert.mp live with rfl | live
    · exact .inr (.inr ⟨index, setOpen_self⟩)
    · refine (stored.owned other live).imp id (.imp id fun ⟨position, here⟩ => ⟨position, ?_⟩)
      have different : position ≠ index := by
        rintro rfl
        rw [free] at here
        cases here
      exact (setOpen_other different).trans here
  allocated other live := by
    rcases Finset.mem_insert.mp live with rfl | live
    · exact ⟨fileSize, member⟩
    · exact stored.allocated other live
  mounts := stored.mounts
  files position other here := by
    by_cases same : position = index
    · rw [same, setOpen_self] at here
      obtain rfl := Option.some.inj here
      refine ⟨member, ?_⟩
      rw [setOpen_file, fillFile_self]
      exact record
    · have here : fs.openFiles position = some other := (setOpen_other same).symm.trans here
      obtain ⟨there, kept⟩ := stored.files position other here
      have different : other ≠ block := fun same =>
        fresh (same ▸ (stored.sound.files position other here).1)
      refine ⟨there, ?_⟩
      rw [setOpen_file, fillFile_other different]
      exact kept

/-- A block that was filled in for a file and given back. -/
theorem rejected (stored : Stored session fs list) (fresh : block ∉ fs.live) :
    Stored session ((fs.fillFile block file).freeFile block) list := by
  have live : ((fs.fillFile block file).freeFile block).live = fs.live :=
    Finset.erase_insert fresh
  refine ⟨stored.reached, stored.sound.rejected fresh, ?_, ?_, stored.mounts,
    fun index other here => ?_⟩
  · intro other handed
    rw [live] at handed
    exact stored.owned other handed
  · intro other handed
    rw [live] at handed
    exact stored.allocated other handed
  · obtain ⟨there, kept⟩ := stored.files index other here
    have different : other ≠ block := fun same =>
      fresh (same ▸ (stored.sound.files index other here).1)
    refine ⟨there, ?_⟩
    rw [freeFile_file, fillFile_other different]
    exact kept

theorem closed {index : Nat} (stored : Stored session fs list)
    (here : fs.openFiles index = some block) :
    Stored session ((fs.freeFile block).setOpen index none) list where
  reached := stored.reached
  sound := stored.sound.closed here
  owned other live := by
    obtain ⟨different, live⟩ := Finset.mem_erase.mp live
    refine (stored.owned other live).imp id (.imp id fun ⟨position, there⟩ => ⟨position, ?_⟩)
    have apart : position ≠ index := by
      rintro rfl
      exact different (Option.some.inj (there.symm.trans here))
    exact (setOpen_other apart).trans there
  allocated other live := stored.allocated other (Finset.mem_of_mem_erase live)
  mounts := stored.mounts
  files position other opened := by
    have apart : position ≠ index := by
      rintro rfl
      rw [setOpen_self] at opened
      cases opened
    exact stored.files position other ((setOpen_other apart).symm.trans opened)

theorem relinked_moved (stored : Stored session fs (front ++ block :: back)) :
    Heap.Moved session (relinked session front.getLast? pointer) (fun _ => False)
      (fun address => ∃ prev : Address, front.getLast? = some prev ∧ address = prev) := by
  cases before : front.getLast? with
  | none => exact (Heap.Moved.refl session).mono (fun _ => id) (fun _ => False.elim)
  | some prev =>
      have listed : prev ∈ front ++ block :: back :=
        List.mem_append_left _ (List.mem_of_getLast? before)
      have wrote := @storing_moved _ _ _
        (fun memory => memory.store32 (prev + 300) (pointerWord pointer)) stored.reached
        (stored.mounts prev listed).1 (Memory.Confined.refl.store32 (by omega) (by rw [mountSize]))
      exact wrote.mono (fun _ => id) fun address here => ⟨prev, rfl, here⟩

/-- `umount` links the list past a mount, in the memory too. -/
theorem unmounted (stored : Stored session fs (front ++ block :: back)) :
    Stored (relinked session front.getLast? (fs.link block))
      (unlinkMount fs front.getLast? block) (front ++ back) := by
  have wrote := @relinked_moved _ _ _ _ _ (fs.link block) stored
  have old : ∀ other ∈ front ++ back, other ∈ front ++ block :: back := fun other inside =>
    (List.mem_append.mp inside).elim (List.mem_append_left _)
      fun behind => List.mem_append_right _ (List.mem_cons_of_mem _ behind)
  refine ⟨stored.reached.steps wrote.steps, stored.sound.unlinked, fun other live => ?_,
    fun other live => ?_, fun other listed => ?_, fun index other here => ?_⟩
  · obtain ⟨live, otherSb, different⟩ := unlinkMount_live.mp live
    rcases stored.owned other live with listed | ⟨mount, listed, sb⟩ | ⟨index, opened⟩
    · refine .inl ?_
      simpa [Ne.symm different] using listed
    · have kept : mount ≠ block := fun same => otherSb (same ▸ sb)
      refine .inr (.inl ⟨mount, by simpa [kept] using listed, ?_⟩)
      rw [sb_unlinkMount]
      exact sb
    · exact .inr (.inr ⟨index, by rw [unlinkMount_files.1]; exact opened⟩)
  · obtain ⟨size, member⟩ := stored.allocated other (unlinkMount_live.mp live).1
    exact ⟨size, wrote.stays _ member id⟩
  · obtain ⟨member, record⟩ := stored.mounts other (old other listed)
    refine ⟨wrote.stays _ member id, ?_⟩
    cases before : front.getLast? with
    | none =>
        rw [show (unlinkMount fs none block).mounted other = fs.mounted other by
          simp only [unlinkMount, kfree_same]]
        exact record
    | some prev =>
        by_cases same : other = prev
        · rw [show (unlinkMount fs (some prev) block).mounted other =
            { fs.mounted other with next := fs.link block } by
              simp [same, unlinkMount, kfree_same, setNext]]
          rw [same] at record ⊢
          exact record.relinked stored.link_proper
        · rw [show (unlinkMount fs (some prev) block).mounted other = fs.mounted other by
            simp [unlinkMount, kfree_same, setNext, same]]
          refine record.congr (before ▸ wrote.bytes _ member id ?_)
          rintro ⟨last, ending, equal⟩
          exact same (Fin.ext equal |>.trans (Option.some.inj (ending.symm.trans before)))
  · rw [unlinkMount_files.1] at here
    rw [unlinkMount_file]
    obtain ⟨member, record⟩ := stored.files index other here
    refine ⟨wrote.stays _ member id, record.congr (wrote.bytes _ member id ?_)⟩
    rintro ⟨prev, ending, equal⟩
    refine (stored.sound.files index other here).2 (List.mem_append_left _ ?_)
    exact Fin.ext equal ▸ List.mem_of_getLast? ending

/-- A position that `seek` stores in the `file_t` of an open file. -/
theorem sought {index pos : Nat} (stored : Stored session fs list)
    (here : fs.openFiles index = some block) (small : pos < 4294967296) :
    Stored (storing session fun memory => memory.store32 (block + 8) pos)
      (setPos fs block pos) list := by
  obtain ⟨member, record⟩ := stored.files index block here
  have wrote := @storing_moved _ _ _ (fun memory => memory.store32 (block + 8) pos) stored.reached
    member storePos_confined
  refine ⟨stored.reached.steps wrote.steps,
    ⟨stored.sound.chain, stored.sound.mounts, stored.sound.superblocks, stored.sound.ownSuperblock,
      stored.sound.files, stored.sound.distinct, stored.sound.bounded⟩, stored.owned,
    stored.allocated, fun mount listed => ?_, fun position other there => ?_⟩
  · obtain ⟨mountMember, kept⟩ := stored.mounts mount listed
    refine ⟨mountMember, kept.congr (wrote.bytes _ mountMember id fun equal => ?_)⟩
    exact (stored.sound.files index block here).2 (Fin.ext equal ▸ listed)
  · obtain ⟨otherMember, kept⟩ := stored.files position other there
    refine ⟨otherMember, ?_⟩
    by_cases same : other = block
    · subst same
      rw [setPos_self]
      refine ⟨?_, ?_, Memory.load32_store32_same small, ?_⟩
      · exact (Memory.load32_store32_other (by omega)).trans record.inode
      · exact (Memory.load32_store32_other (by omega)).trans record.mode
      · exact (Memory.load32_store32_other (by omega)).trans record.flags
    · rw [setPos_other same]
      refine kept.congr (wrote.bytes _ otherMember id fun equal => ?_)
      exact same (Fin.ext equal)

end Stored

end

end Helios.Fs
