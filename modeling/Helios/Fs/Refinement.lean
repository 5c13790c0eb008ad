import Helios.Fs.Residence

namespace Helios.Fs

open Helios.Data Helios.Strings Helios.Syscall FileSystem

/-! `fs.c` in the memory of the heap does to its records what the calls of
`FileSystem` do, with the blocks that `kmalloc` hands out for answers. -/

/-- A call on the file system, with an answer of `kmalloc`. -/
def Call.apply (fs : FileSystem Address) (granted : Option Address) :
    Call → Option (FileSystem Address × Int)
  | .mount device mountpoint fstype => Fs.mount fs device mountpoint fstype granted
  | .umount mountpoint => Fs.umount fs mountpoint
  | .openFile path flags mode => Fs.openFile fs path flags mode granted
  | .closeFile fd => some (Fs.closeFile fs fd)
  | .seek fd offset whence => some (Fs.seek fs fd offset whence)

/-- The variables and the memory are those of a file system. -/
structure Represents (storage : Storage) (fs : FileSystem Address) (list : List Address) : Prop
    extends Stored storage.session fs list where
  head : storage.mountedFsList = fs.mountedFsList
  table : storage.openFiles = fs.openFiles

/-- A call returns, with what the file system answers to it, and leaves the
allocations of others alone. -/
def Refines (storage : Storage) (fs : FileSystem Address) (call : Call) : Prop :=
  ∃ next code granted later after, storage.handle call = some (next, code) ∧ Fresh fs granted ∧
    call.apply fs granted = some (later, code) ∧ Represents next later after ∧
    Spares storage.session next.session fs.live later.live

/-- A call on the file system, with an answer that is not handed out. -/
inductive FsStep : FileSystem Address → FileSystem Address → Prop
  | called {fs next : FileSystem Address} {call : Call} {granted : Option Address} {code : Int}
      (fresh : Fresh fs granted) (returned : call.apply fs granted = some (next, code)) :
      FsStep fs next

section

variable {storage : Storage} {fs : FileSystem Address} {list : List Address} {block : Address}
variable {session : Heap.Session} {mountpoint device fstype path : CString}
variable {flags mode fd offset whence : Int}

theorem fresh_none : Fresh fs none := fun _ handed => absurd handed (by simp)

theorem seek_missing (missing : ∀ index : Nat, fd = index → index < maxFiles →
    fs.openFiles index = none) : Fs.seek fs fd offset whence = (fs, -1) := by
  by_cases outside : fd < 0 ∨ maxFiles ≤ fd
  · rw [Fs.seek, if_pos outside]
  · rw [Fs.seek, if_neg outside, missing fd.toNat (by omega) (by omega)]

theorem seek_at {index : Nat} (inside : index < maxFiles)
    (here : fs.openFiles index = some block) :
    Fs.seek fs index offset whence =
      if whence = 0 then (setPos fs block (word offset), signed (word offset))
      else if whence = 1 then
        (setPos fs block (word ((fs.file block).pos + offset)),
          signed (word ((fs.file block).pos + offset)))
      else if whence = 2 then (fs, signed (fs.file block).pos)
      else (fs, -1) := by
  have valid : ¬((index : Int) < 0 ∨ (maxFiles : Int) ≤ index) := by omega
  rw [Fs.seek, if_neg valid, Int.toNat_natCast, here]

/-- `umount` writes the link to the mount, and frees it and its superblock. -/
theorem Stored.umount_spares {front back : List Address}
    (stored : Stored session fs (front ++ block :: back)) :
    Spares session (release (releaseSome (relinked session front.getLast? (fs.link block))
      (fs.mounted block).sb) block) fs.live (unlinkMount fs front.getLast? block).live := by
  have listed : block ∈ front ++ block :: back := by simp
  have held := stored.sound.mounts block listed
  have less : (unlinkMount fs front.getLast? block).live ⊆ fs.live := fun other live =>
    (unlinkMount_live.mp live).1
  have wrote := @Stored.relinked_moved _ _ _ _ _ (fs.link block) stored
  have reached := stored.reached.steps wrote.steps
  have member := wrote.stays _ (stored.mounts block listed).1 id
  have linked : Spares session (relinked session front.getLast? (fs.link block)) fs.live fs.live := by
    refine spares_of_moved wrote (fun _ => False.elim) (fun _ ⟨prev, ending, same⟩ => ?_) subset_rfl
    have earlier := List.mem_append_left (block :: back) (List.mem_of_getLast? ending)
    exact ⟨prev, stored.sound.mounts prev earlier, same⟩
  cases superblock : (fs.mounted block).sb with
  | none => exact linked.trans (release_spares reached member held less)
  | some sb =>
      obtain ⟨live, outside, _⟩ := stored.sound.superblocks block listed sb superblock
      obtain ⟨size, allocated⟩ := stored.allocated sb live
      have sbMember := wrote.stays _ allocated id
      have freed := release_moved reached sbMember
      have stays := freed.stays _ member fun same => outside (Fin.ext same ▸ listed)
      exact linked.trans ((release_spares reached sbMember live subset_rfl).trans
        (release_spares (reached.steps freed.steps) stays held less))

namespace Represents

theorem onChain (represents : Represents storage fs list)
    (linked : OnChain fs.link fs.mountedFsList block) :
    ⟨block, mountSize⟩ ∈ storage.session.live ∧
      MountAt storage.memory block (fs.mounted block) :=
  represents.mounts block (represents.sound.chain.mem_iff.mp linked)

theorem link_eq (represents : Represents storage fs list)
    (linked : OnChain fs.link fs.mountedFsList block) : storage.link block = fs.link block :=
  (represents.onChain linked).2.next

theorem mountedAt_eq (represents : Represents storage fs list)
    (linked : OnChain fs.link fs.mountedFsList block) :
    storage.mountedAt mountpoint block = mountedAt fs mountpoint block := by
  obtain ⟨member, record⟩ := represents.onChain linked
  have inside := (bounds represents.reached member).2
  rw [mountSize] at inside
  rw [Storage.mountedAt, mountedAt, record.mountpoint.strcmpAt record.ends (by omega)]

/-- The walk along the list in memory ends, and meets the mounts. -/
theorem chain (represents : Represents storage fs list) :
    Chain storage.link storage.mountedFsList list := by
  rw [represents.head]
  exact represents.sound.chain.congr fun block member =>
    represents.link_eq (represents.sound.chain.mem_iff.mpr member)

theorem searched (represents : Represents storage fs list) {steps : Nat} :
    search storage.link (storage.mountedAt mountpoint) steps storage.mountedFsList =
      search fs.link (mountedAt fs mountpoint) steps fs.mountedFsList := by
  rw [represents.head]
  exact search_congr (fun _ => represents.link_eq) fun _ => represents.mountedAt_eq

theorem searchedPrev (represents : Represents storage fs list) {steps : Nat} :
    searchPrev storage.link (storage.mountedAt mountpoint) steps none storage.mountedFsList =
      searchPrev fs.link (mountedAt fs mountpoint) steps none fs.mountedFsList := by
  rw [represents.head]
  exact searchPrev_congr (fun _ => represents.link_eq) fun _ => represents.mountedAt_eq

theorem findMountAt_returns (represents : Represents storage fs list) :
    ∃ found, findMountAt storage.memory path (Fintype.card Address + 1) storage.mountedFsList =
      some found := by
  have walk : ∀ (rest : List Address) (start : Option Address) (fuel : Nat),
      Chain storage.link start rest → (∀ block ∈ rest, block ∈ list) → rest.length < fuel →
      ∃ found, findMountAt storage.memory path fuel start = some found := by
    intro rest
    induction rest with
    | nil =>
        intro start fuel linked _ enough
        obtain rfl : start = none := linked
        cases fuel with
        | zero => cases enough
        | succ fuel => exact ⟨none, rfl⟩
    | cons block rest ih =>
        intro start fuel linked inside enough
        obtain ⟨rfl, linked⟩ := linked
        cases fuel with
        | zero => cases enough
        | succ fuel =>
            obtain ⟨member, record⟩ := represents.mounts block (inside block List.mem_cons_self)
            have room := (bounds represents.reached member).2
            rw [mountSize] at room
            have text : textAt storage.memory 4294967296 (block + 32) = some _ :=
              record.mountpoint.textAt record.ends (by omega)
            have enough : rest.length < fuel := Nat.lt_of_succ_lt_succ enough
            rw [findMountAt, text, Option.bind_some]
            split_ifs
            · exact ⟨_, rfl⟩
            · have later : ∀ other ∈ rest, other ∈ list := fun other member =>
                inside other (List.mem_cons_of_mem _ member)
              exact ih _ fuel linked later enough
  exact walk list _ _ represents.chain (fun _ => id) represents.sound.length_lt

theorem blockOf_eq (represents : Represents storage fs list) :
    storage.blockOf fd = if fd < 0 ∨ maxFiles ≤ fd then none else fs.openFiles fd.toNat := by
  rw [Storage.blockOf, represents.table]

/-- The blocks that the file system can get at are those that it has allocated
and not freed. -/
theorem holds_iff (represents : Represents storage fs list) :
    storage.Holds block ↔ block ∈ fs.live := by
  constructor
  · intro holds
    cases holds with
    | mounted member => exact represents.sound.mounts _ (represents.chain.mem_iff.mp member)
    | @superblock mount _ member found =>
        have listed := represents.chain.mem_iff.mp member
        have same := (represents.mounts mount listed).2.sb
        exact (represents.sound.superblocks mount listed block (same.symm.trans found)).1
    | @opened index _ here =>
        rw [represents.table] at here
        exact (represents.sound.files index block here).1
  · intro live
    rcases represents.owned block live with listed | ⟨mount, listed, sb⟩ | ⟨index, here⟩
    · exact .mounted (represents.chain.mem_iff.mpr listed)
    · have same := (represents.mounts mount listed).2.sb
      exact .superblock (represents.chain.mem_iff.mpr listed) (same.trans sb)
    · exact .opened (represents.table.symm ▸ here)

theorem mount (represents : Represents storage fs list) :
    Refines storage fs (.mount device mountpoint fstype) := by
  have walk := (@searched _ _ _ mountpoint represents _).trans
    (search_eq represents.sound.chain represents.sound.length_lt)
  cases found : list.find? (mountedAt fs mountpoint) with
  | some block =>
      rw [found] at walk
      refine ⟨storage, -1, none, fs, list, ?_, fresh_none, ?_, represents, .refl⟩
      · simp only [Storage.handle, Storage.mount, walk, Option.bind_eq_bind, Option.bind_some]
      · show Fs.mount fs device mountpoint fstype none = some (fs, -1)
        exact mount_taken represents.sound (List.mem_of_find?_eq_some found) (List.find?_some found)
  | none =>
      rw [found] at walk
      have missing : ∀ block ∈ list, mountedAt fs mountpoint block = false := fun block member =>
        Bool.eq_false_of_not_eq_true (List.find?_eq_none.mp found block member)
      obtain ⟨session, granted, taken, handed, stored⟩ :=
        represents.toStored.allocates (show mountSize ≤ 0xFFFFFFE8 by decide)
      cases granted with
      | none =>
          refine ⟨{ storage with session }, -1, none, fs, list, ?_, fresh_none, ?_,
            ⟨stored, represents.head, represents.table⟩, handed.spares⟩
          · simp only [Storage.handle, Storage.mount, walk, taken, Option.bind_eq_bind,
              Option.bind_some]
          · show Fs.mount fs device mountpoint fstype none = some (fs, -1)
            exact mount_free represents.sound missing
      | some block =>
          have member := handed.member block rfl
          have outside := represents.toStored.fresh handed
          have record : MountAt (storeMount session.heap.memory block device mountpoint
              fs.mountedFsList) block ⟨strncpy device 31, strncpy mountpoint 255, none,
                fs.mountedFsList⟩ := storeMount_at stored.head_proper
          have written := stored.stores
            (fun memory => storeMount memory block device mountpoint fs.mountedFsList)
            outside member storeMount_confined
          have wrote := @storing_spares _ _ _ (insert block fs.live)
            (fun memory => storeMount memory block device mountpoint fs.mountedFsList)
            stored.reached member storeMount_confined (Finset.mem_insert_self _ _)
          refine ⟨⟨_, some block, storage.openFiles⟩, 0, some block,
            addMount fs block device mountpoint, block :: list, ?_, fun other same => ?_, ?_,
            ⟨written.mounted outside member record, rfl, represents.table⟩,
            handed.spares.trans wrote⟩
          · simp only [Storage.handle, Storage.mount, walk, taken, Option.bind_eq_bind,
              Option.bind_some]
            rw [represents.head]
            rfl
          · exact Option.some.inj same ▸ outside
          · show Fs.mount fs device mountpoint fstype (some block) = some (_, 0)
            exact mount_free represents.sound missing

/-- The block that is unmounted, with what of it is still to be freed. -/
theorem umount_found {front back : List Address}
    (represents : Represents storage fs (front ++ block :: back))
    (here : mountedAt fs mountpoint block = true)
    (earlier : ∀ other ∈ front, mountedAt fs mountpoint other = false) :
    storage.umount mountpoint = some (⟨release (releaseSome
        (relinked storage.session front.getLast? (fs.link block)) (fs.mounted block).sb) block,
      (unlinkMount fs front.getLast? block).mountedFsList, storage.openFiles⟩, 0) := by
  have short := (List.sublist_append_left front (block :: back)).length_le.trans_lt
    represents.sound.length_lt
  have walk := (@searchedPrev _ _ _ mountpoint represents _).trans
    (searchPrev_found represents.sound.chain short here earlier)
  obtain ⟨member, record⟩ := represents.mounts block (by simp)
  have linked : storage.link block = fs.link block := record.next
  have distinct := represents.sound.chain.nodup
  rw [List.nodup_middle] at distinct
  have wrote := @Stored.relinked_moved _ _ _ _ _ (fs.link block) represents.toStored
  have still := record.congr (wrote.bytes _ member id fun ⟨prev, ending, same⟩ =>
    (List.nodup_cons.mp distinct).1 (List.mem_append_left _
      (Fin.ext same ▸ List.mem_of_getLast? ending)))
  have unlinked : storage.unlinked front.getLast? block =
      ⟨relinked storage.session front.getLast? (fs.link block),
        (unlinkMount fs front.getLast? block).mountedFsList, storage.openFiles⟩ := by
    cases front.getLast? with
    | none => simp only [Storage.unlinked, linked, relinked, unlinkMount, kfree_same]
    | some prev =>
        simp only [Storage.unlinked, linked, relinked, unlinkMount, kfree_same, setNext,
          represents.head]
  have read : (storage.unlinked front.getLast? block).superblock block = (fs.mounted block).sb := by
    rw [unlinked]
    exact still.sb
  rw [Option.or_none] at walk
  rw [Storage.umount, walk, Option.bind_eq_bind, Option.bind_some]
  simp only [read]
  simp only [unlinked]

theorem umount (represents : Represents storage fs list) :
    Refines storage fs (.umount mountpoint) := by
  cases mountedAt_cases fs mountpoint list with
  | inl missing =>
      have walk := (@searchedPrev _ _ _ mountpoint represents _).trans
        (searchPrev_missing represents.sound.chain represents.sound.length_lt missing)
      refine ⟨storage, -1, none, fs, list, ?_, fresh_none, ?_, represents, .refl⟩
      · simp only [Storage.handle, Storage.umount, walk, Option.bind_eq_bind, Option.bind_some]
      · show Fs.umount fs mountpoint = some (fs, -1)
        exact umount_missing represents.sound missing
  | inr found =>
      obtain ⟨front, block, back, rfl, here, earlier⟩ := found
      have listed : block ∈ front ++ block :: back := by simp
      have wrote := @Stored.relinked_moved _ _ _ _ _ (fs.link block) represents.toStored
      have member := wrote.stays _ (represents.mounts block listed).1 id
      have stored := represents.toStored.unmounted
      have gone : block ∉ (unlinkMount fs front.getLast? block).live := by
        simp [unlinkMount_live]
      have freed : Stored (release (releaseSome
          (relinked storage.session front.getLast? (fs.link block)) (fs.mounted block).sb) block)
          (unlinkMount fs front.getLast? block) (front ++ back) := by
        cases superblock : (fs.mounted block).sb with
        | none => exact stored.released gone member
        | some sb =>
            obtain ⟨live, outside, _⟩ := represents.sound.superblocks block listed sb superblock
            obtain ⟨size, allocated⟩ := represents.allocated sb live
            have sbGone : sb ∉ (unlinkMount fs front.getLast? block).live := by
              simp [unlinkMount_live, superblock]
            have sbStays := wrote.stays _ allocated id
            have stays := (release_moved stored.reached sbStays).stays _ member
              fun same => outside (Fin.ext same ▸ listed)
            exact (stored.released sbGone sbStays).released gone stays
      exact ⟨_, 0, none, unlinkMount fs front.getLast? block, front ++ back,
        represents.umount_found here earlier, fresh_none,
        Fs.umount_found represents.sound here earlier,
        ⟨freed, rfl, represents.table.trans unlinkMount_files.1.symm⟩,
        represents.toStored.umount_spares⟩

theorem openFile (represents : Represents storage fs list) :
    Refines storage fs (.openFile path flags mode) := by
  obtain ⟨found, walk⟩ := @findMountAt_returns _ _ _ path represents
  obtain ⟨session, granted, taken, handed, stored⟩ :=
    represents.toStored.allocates (show fileSize ≤ 0xFFFFFFE8 by decide)
  cases granted with
  | none =>
      refine ⟨{ storage with session }, -1, none, fs, list, ?_, fresh_none, ?_,
        ⟨stored, represents.head, represents.table⟩, handed.spares⟩
      · simp only [Storage.handle, Storage.openFile, walk, taken, Option.bind_eq_bind,
          Option.bind_some]
      · show Fs.openFile fs path flags mode none = some (fs, -1)
        exact openFile_null represents.sound
  | some block =>
      have member := handed.member block rfl
      have outside := represents.toStored.fresh handed
      have written := stored.stores (fun memory => storeFile memory block (newFile path flags))
        outside member storeFile_confined
      have wrote := @storing_spares _ _ _ (insert block fs.live)
        (fun memory => storeFile memory block (newFile path flags)) stored.reached member
        storeFile_confined (Finset.mem_insert_self _ _)
      have answer : Fresh fs (some block) := fun other same => Option.some.inj same ▸ outside
      have entries : ((List.range maxFiles).find? fun index => (storage.openFiles index).isNone) =
          freeIndex fs := by
        rw [represents.table, freeIndex]
      cases free : freeIndex fs with
      | none =>
          rw [free] at entries
          have record : Stored _ ((fs.fillFile block (newFile path flags)).freeFile block) list :=
            (written.released outside member).rejected outside
          have gave := release_spares written.reached member (Finset.mem_insert_self block fs.live)
            (Finset.erase_subset block _)
          refine ⟨⟨_, storage.mountedFsList, storage.openFiles⟩, -1, some block, _, list, ?_, answer,
            ?_, ⟨record, represents.head, represents.table⟩,
            handed.spares.trans (wrote.trans gave)⟩
          · simp only [Storage.handle, Storage.openFile, walk, taken, Option.bind_eq_bind,
              Option.bind_some, entries]
            rfl
          · show Fs.openFile fs path flags mode (some block) = some (_, -1)
            exact openFile_full represents.sound free
      | some index =>
          rw [free] at entries
          obtain ⟨inside, empty⟩ := (freeIndex_eq_some.mp free).1
          have record : FileAt (storeFile session.heap.memory block (newFile path flags)) block
            (newFile path flags) := storeFile_at newFile_small
          have opened := written.opened outside inside empty member record
          refine ⟨⟨_, storage.mountedFsList, Function.update storage.openFiles index (some block)⟩,
            index, some block, _, list, ?_, answer, ?_, ⟨opened, represents.head, ?_⟩,
            handed.spares.trans wrote⟩
          · simp only [Storage.handle, Storage.openFile, walk, taken, Option.bind_eq_bind,
              Option.bind_some, entries]
            rfl
          · show Fs.openFile fs path flags mode (some block) = some (_, (index : Int))
            exact openFile_free represents.sound free
          · rw [represents.table]
            rfl

/-- A descriptor that is not open, or the entry that it stands for. -/
theorem blockOf_cases (represents : Represents storage fs list) (fd : Int) :
    (storage.blockOf fd = none ∧ ∀ index : Nat, fd = index → index < maxFiles →
        fs.openFiles index = none) ∨
      ∃ (index : Nat) (block : Address), fd = index ∧ index < maxFiles ∧
        fs.openFiles index = some block ∧ storage.blockOf fd = some block := by
  rw [represents.blockOf_eq]
  by_cases outside : fd < 0 ∨ maxFiles ≤ fd
  · rw [if_pos outside]
    exact .inl ⟨rfl, fun index same inside => by omega⟩
  · rw [if_neg outside]
    have same : fd = fd.toNat := by omega
    cases here : fs.openFiles fd.toNat with
    | none =>
        refine .inl ⟨rfl, fun index equal _ => ?_⟩
        rwa [equal, Int.toNat_natCast] at here
    | some block => exact .inr ⟨fd.toNat, block, same, by omega, here, rfl⟩

theorem closeFile (represents : Represents storage fs list) :
    Refines storage fs (.closeFile fd) := by
  rcases represents.blockOf_cases fd with ⟨missing, free⟩ | ⟨index, block, rfl, inside, here, found⟩
  · refine ⟨storage, -1, none, fs, list, ?_, fresh_none, ?_, represents, .refl⟩
    · simp only [Storage.handle, Storage.closeFile, missing]
    · exact congrArg some (closeFile_missing free)
  · have member := (represents.files index block here).1
    have live := (represents.sound.files index block here).1
    have gone : block ∉ ((fs.freeFile block).setOpen index none).live :=
      Finset.notMem_erase block fs.live
    refine ⟨⟨_, storage.mountedFsList, Function.update storage.openFiles index none⟩, 0, none, _,
      list, ?_, fresh_none, congrArg some (closeFile_open inside here),
      ⟨(represents.toStored.closed here).released gone member, represents.head, ?_⟩,
      release_spares represents.reached member live (Finset.erase_subset _ _)⟩
    · simp only [Storage.handle, Storage.closeFile, found, Int.toNat_natCast]
      rfl
    · rw [represents.table]
      rfl

theorem seek (represents : Represents storage fs list) :
    Refines storage fs (.seek fd offset whence) := by
  rcases represents.blockOf_cases fd with ⟨missing, free⟩ | ⟨index, block, rfl, inside, here, found⟩
  · refine ⟨storage, -1, none, fs, list, ?_, fresh_none, congrArg some (seek_missing free),
      represents, .refl⟩
    simp only [Storage.handle, Storage.seek, missing]
  · have pos : storage.memory.load32 (block + 8) = (fs.file block).pos :=
      (represents.files index block here).2.pos
    have live := (represents.sound.files index block here).1
    have moved : ∀ value : Int, Represents (storage.setPos block (word value))
        (setPos fs block (word value)) list ∧
        Spares storage.session (storage.setPos block (word value)).session fs.live fs.live :=
      fun value => ⟨⟨represents.toStored.sought here (word_lt value), represents.head,
        represents.table⟩, @storing_spares _ _ _ _ (fun memory => memory.store32 (block + 8) _)
          represents.reached (represents.files index block here).1 storePos_confined live⟩
    have sought := @seek_at _ _ offset whence _ inside here
    by_cases set : whence = 0
    · refine ⟨storage.setPos block (word offset), signed (word offset), none, _, list, ?_,
        fresh_none, ?_, moved offset⟩
      · simp only [Storage.handle, Storage.seek, found, if_pos set]
      · rw [Call.apply, sought, if_pos set]
    · by_cases current : whence = 1
      · refine ⟨storage.setPos block (word ((fs.file block).pos + offset)),
          signed (word ((fs.file block).pos + offset)), none, _, list, ?_, fresh_none, ?_, moved _⟩
        · simp only [Storage.handle, Storage.seek, found, if_neg set, if_pos current, pos]
        · rw [Call.apply, sought, if_neg set, if_pos current]
      · by_cases stop : whence = 2
        · refine ⟨storage, signed (fs.file block).pos, none, fs, list, ?_, fresh_none, ?_,
            represents, .refl⟩
          · simp only [Storage.handle, Storage.seek, found, if_neg set, if_neg current,
              if_pos stop, pos]
          · rw [Call.apply, sought, if_neg set, if_neg current, if_pos stop]
        · refine ⟨storage, -1, none, fs, list, ?_, fresh_none, ?_, represents, .refl⟩
          · simp only [Storage.handle, Storage.seek, found, if_neg set, if_neg current,
              if_neg stop]
          · rw [Call.apply, sought, if_neg set, if_neg current, if_neg stop]

theorem inode_eq {index : Nat} (represents : Represents storage fs list)
    (here : fs.openFiles index = some block) :
    storage.memory.load32 block = (fs.file block).inode :=
  (represents.files index block here).2.inode

theorem read_eq (represents : Represents storage fs list) {behind : UInt8} {console : Console}
    {buf count : Nat} :
    storage.read behind console fd buf count = read behind fs console fd buf count := by
  rw [Storage.read, represents.blockOf_eq, read]
  by_cases outside : fd < 0 ∨ maxFiles ≤ fd
  · rw [if_pos outside, if_pos outside]
  · rw [if_neg outside, if_neg outside]
    cases here : fs.openFiles fd.toNat with
    | none => rfl
    | some block =>
        simp only [represents.inode_eq here]

theorem write_eq (represents : Represents storage fs list) {console : Console} {buf count : Nat} :
    storage.write console fd buf count = write fs console fd buf count := by
  rw [Storage.write, represents.blockOf_eq, write]
  by_cases outside : fd < 0 ∨ maxFiles ≤ fd
  · rw [if_pos outside, if_pos outside]
  · rw [if_neg outside, if_neg outside]
    cases here : fs.openFiles fd.toNat with
    | none => rfl
    | some block =>
        simp only [represents.inode_eq here]

theorem handle (represents : Represents storage fs list) (call : Call) :
    Refines storage fs call := by
  cases call with
  | mount device mountpoint fstype => exact represents.mount
  | umount mountpoint => exact represents.umount
  | openFile path flags mode => exact represents.openFile
  | closeFile fd => exact represents.closeFile
  | seek fd offset whence => exact represents.seek

/-- What other users of the heap do is not noticed. -/
theorem client (represents : Represents storage fs list) (moved : storage.Client session) :
    Represents { storage with session } fs list := by
  refine ⟨?_, represents.head, represents.table⟩
  cases moved with
  | kmalloc size bound result =>
      exact represents.toStored.moved (represents.reached.moved_kmalloc bound result).1
        (fun _ _ => id) fun _ _ => id
  | kfree allocation live foreign =>
      exact represents.toStored.moved (represents.reached.moved_kfree live)
        (fun block held same => foreign block (represents.holds_iff.mpr held) same.symm)
        fun _ _ => id
  | write allocation live foreign position byte inside =>
      exact represents.toStored.moved (represents.reached.moved_write live inside) (fun _ _ => id)
        fun block held same => foreign block (represents.holds_iff.mpr held) same.symm

end Represents

end

end Helios.Fs
