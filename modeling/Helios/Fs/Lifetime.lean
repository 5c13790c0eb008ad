import Helios.Fs.Refinement

namespace Helios.Fs

open Helios.Data Helios.Strings Helios.Syscall FileSystem

/-! The records that `init_fs` leaves in the memory, and every run of calls from
there, between the calls of other users of the heap. -/

/-- The variables of `fs.c` before `init_fs`. -/
def unbooted : FileSystem Address where
  mounted _ := ⟨ramName, rootName, none, none⟩
  file _ := {}
  mountedFsList := none
  openFiles _ := none
  live := ∅
  allocated := []
  freed := []

/-- The blocks are live allocations. -/
def Backed (session : Heap.Session) (live : Finset Address) : Prop :=
  ∀ block ∈ live, ∃ size, ⟨block, size⟩ ∈ session.live

section

variable {session next : Heap.Session} {fs : FileSystem Address} {list : List Address}
variable {answer granted : Option Address} {rest : List (Option Address)} {size index : Nat}
variable {live : Finset Address} {storage after : Storage}

theorem Backed.handed (backed : Backed session live)
    (handed : Handed session next size granted) :
    (∀ block, granted = some block → block ∉ live) ∧ Backed next (withAnswer live granted) := by
  have still : Backed next live := fun block member => by
    obtain ⟨size, allocated⟩ := backed block member
    exact ⟨size, handed.moved.stays _ allocated id⟩
  refine ⟨fun block same member => ?_, ?_⟩
  · obtain ⟨_, allocated⟩ := backed block member
    exact handed.others block same _ allocated rfl
  · cases granted with
    | none => exact still
    | some block =>
        intro other member
        rcases Finset.mem_insert.mp member with rfl | earlier
        · exact ⟨size, handed.member other rfl⟩
        · exact still other earlier

theorem mem_withAnswer {block : Address} (same : answer = some block) :
    block ∈ withAnswer live answer := by
  rw [same]
  exact Finset.mem_insert_self block live

theorem subset_withAnswer : live ⊆ withAnswer live answer := by
  cases answer with
  | none => exact subset_rfl
  | some block => exact Finset.subset_insert block live

theorem freshAnswers_cons (fresh : ∀ block, answer = some block → block ∉ live)
    (later : FreshAnswers (withAnswer live answer) rest) : FreshAnswers live (answer :: rest) := by
  cases answer with
  | none => exact later
  | some block => exact ⟨fresh block rfl, later⟩

theorem initStream_live : (initStream fs index answer).live = withAnswer fs.live answer := by
  cases answer with
  | none => rfl
  | some block => rfl

theorem initStream_mountedFsList :
    (initStream fs index answer).mountedFsList = fs.mountedFsList := by
  cases answer with
  | none => rfl
  | some block => rfl

theorem initStream_openFiles (free : fs.openFiles index = none) :
    (initStream fs index answer).openFiles = Function.update fs.openFiles index answer := by
  cases answer with
  | none => exact (Function.update_eq_self_iff.mpr free.symm).symm
  | some block => rfl

theorem writeStream_live : (writeStream session index answer).live = session.live := by
  cases answer with
  | none => rfl
  | some block => rfl

theorem Stored.stream (stored : Stored session fs list)
    (fresh : ∀ block, answer = some block → block ∉ fs.live)
    (member : ∀ block, answer = some block → ⟨block, fileSize⟩ ∈ session.live)
    (inside : index < maxFiles) (free : fs.openFiles index = none) :
    Stored (writeStream session index answer) (initStream fs index answer) list := by
  cases answer with
  | none => exact stored
  | some block =>
      have written := stored.stores (fun memory => storeFile memory block { inode := index })
        (fresh block rfl) (member block rfl) storeFile_confined
      have small : File.Small { inode := index } :=
        ⟨inside.trans (by decide), Nat.zero_lt_succ _, Nat.zero_lt_succ _, Nat.zero_lt_succ _⟩
      exact written.opened (fresh block rfl) inside free (member block rfl) (storeFile_at small)

theorem writeStream_spares (reached : Heap.Reachable session)
    (member : ∀ block, answer = some block → ⟨block, fileSize⟩ ∈ session.live)
    (held : ∀ block, answer = some block → block ∈ live) :
    Spares session (writeStream session index answer) live live := by
  cases answer with
  | none => exact .refl
  | some block =>
      exact @storing_spares _ _ _ _ (fun memory => storeFile memory block { inode := index }) reached
        (member block rfl) storeFile_confined (held block rfl)

/-- The standard streams of `init_fs`. -/
def streams (stdin stdout stderr : Option Address) : FileSystem Address :=
  initStream (initStream (initStream unbooted 0 stdin) 1 stdout) 2 stderr

variable {stdin stdout stderr root sb : Option Address} {block : Address}

theorem streams_live :
    (streams stdin stdout stderr).live =
      withAnswer (withAnswer (withAnswer ∅ stdin) stdout) stderr := by
  rw [streams, initStream_live, initStream_live, initStream_live]
  rfl

theorem streams_mountedFsList : (streams stdin stdout stderr).mountedFsList = none := by
  rw [streams, initStream_mountedFsList, initStream_mountedFsList, initStream_mountedFsList]
  rfl

theorem input_free (positive : 0 < index) :
    (initStream unbooted 0 stdin).openFiles index = none := by
  rw [initStream_openFiles rfl, Function.update_of_ne (by omega)]
  rfl

theorem output_free : (initStream (initStream unbooted 0 stdin) 1 stdout).openFiles 2 = none := by
  rw [initStream_openFiles (input_free (by decide)), Function.update_of_ne (by decide)]
  exact input_free (by decide)

theorem unbooted_stored (reached : Heap.Reachable session) : Stored session unbooted [] where
  reached := reached
  sound := ⟨rfl, by simp, by simp, by simp, fun _ _ here => absurd here (by simp [unbooted]),
    fun _ _ _ here => absurd here (by simp [unbooted]), fun _ _ => rfl⟩
  owned _ member := absurd member (by simp [unbooted])
  allocated _ member := absurd member (by simp [unbooted])
  mounts _ member := absurd member (by simp)
  files _ _ here := absurd here (by simp [unbooted])

/-- Without a superblock the root is given up. -/
theorem Stored.unrooted (stored : Stored session fs []) (fresh : block ∉ fs.live) :
    Stored session (initRoot fs (some block) none) [] := by
  have live : (initRoot fs (some block) none).live = fs.live := Finset.erase_insert fresh
  refine ⟨stored.reached, ⟨stored.sound.chain, by simp, by simp, by simp, ?_, stored.sound.distinct,
    stored.sound.bounded⟩, ?_, ?_, by simp, stored.files⟩
  · rw [live]
    exact stored.sound.files
  · intro other member
    rw [live] at member
    rcases stored.owned other member with listed | ⟨mount, listed, _⟩ | opened
    · cases listed
    · cases listed
    · exact .inr (.inr opened)
  · intro other member
    rw [live] at member
    exact stored.allocated other member

/-- The root on the list, with its superblock. -/
theorem Stored.rooted {sb : Address} (stored : Stored session fs []) (fresh : block ∉ fs.live)
    (sbFresh : sb ∉ insert block fs.live) (member : ⟨block, mountSize⟩ ∈ session.live)
    (sbMember : ⟨sb, superblockSize⟩ ∈ session.live)
    (record : MountAt session.heap.memory block ⟨ramName, rootName, some sb, none⟩) :
    Stored session (initRoot fs (some block) (some sb)) [block] := by
  have self : (initRoot fs (some block) (some sb)).mounted block =
      ⟨ramName, rootName, some sb, none⟩ := Function.update_self _ _ _
  have sound : Sound (initRoot fs (some block) (some sb)) [block] := by
    have answers : FreshAnswers fs.live [some block, some sb] := ⟨fresh, sbFresh, trivial⟩
    obtain ⟨list, sound, only⟩ := stored.sound.initRoot answers
    have first : some block = list.head? := sound.chain.head_eq
    rcases only with rfl | ⟨other, rfl, _⟩
    · cases first
    · obtain rfl := Option.some.inj first
      exact sound
  refine ⟨stored.reached, sound, fun other live => ?_, fun other live => ?_, fun other listed => ?_,
    stored.files⟩
  · rcases Finset.mem_insert.mp live with rfl | live
    · exact .inr (.inl ⟨block, List.mem_singleton_self _, congrArg MountedFs.sb self⟩)
    · rcases Finset.mem_insert.mp live with rfl | live
      · exact .inl (List.mem_singleton_self _)
      · rcases stored.owned other live with listed | ⟨mount, listed, _⟩ | opened
        · cases listed
        · cases listed
        · exact .inr (.inr opened)
  · rcases Finset.mem_insert.mp live with rfl | live
    · exact ⟨superblockSize, sbMember⟩
    · rcases Finset.mem_insert.mp live with rfl | live
      · exact ⟨mountSize, member⟩
      · exact stored.allocated other live
  · obtain rfl := List.mem_singleton.mp listed
    rw [self]
    exact ⟨member, record⟩

section

variable {first second third : Heap.Session}

theorem streams_members (handedIn : Handed session first fileSize stdin)
    (handedOut : Handed first second fileSize stdout)
    (handedErr : Handed second third fileSize stderr) :
    (∀ block, stdin = some block → ⟨block, fileSize⟩ ∈ third.live) ∧
      (∀ block, stdout = some block → ⟨block, fileSize⟩ ∈ third.live) ∧
      ∀ block, stderr = some block → ⟨block, fileSize⟩ ∈ third.live := by
  refine ⟨fun block same => ?_, fun block same => ?_, handedErr.member⟩
  · have kept := handedOut.moved.stays _ (handedIn.member block same) id
    exact handedErr.moved.stays _ kept id
  · exact handedErr.moved.stays _ (handedOut.member block same) id

theorem streams_held :
    (∀ block, stdin = some block → block ∈ (streams stdin stdout stderr).live) ∧
      (∀ block, stdout = some block → block ∈ (streams stdin stdout stderr).live) ∧
      ∀ block, stderr = some block → block ∈ (streams stdin stdout stderr).live := by
  rw [streams_live]
  exact ⟨fun _ same => subset_withAnswer (subset_withAnswer (mem_withAnswer same)),
    fun _ same => subset_withAnswer (mem_withAnswer same), fun _ => mem_withAnswer⟩

/-- The standard streams are made of blocks that nobody had. -/
theorem streams_spares (reached : Heap.Reachable third)
    (handedIn : Handed session first fileSize stdin)
    (handedOut : Handed first second fileSize stdout)
    (handedErr : Handed second third fileSize stderr) :
    Spares session (writeStream (writeStream (writeStream third 0 stdin) 1 stdout) 2 stderr)
      ∅ (streams stdin stdout stderr).live := by
  obtain ⟨memberIn, memberOut, memberErr⟩ := streams_members handedIn handedOut handedErr
  obtain ⟨heldIn, heldOut, heldErr⟩ := @streams_held stdin stdout stderr
  have taken : Spares session third ∅ (streams stdin stdout stderr).live := by
    rw [streams_live]
    exact (handedIn.spares.trans handedOut.spares).trans handedErr.spares
  have wroteIn := @writeStream_spares _ _ 0 _ reached memberIn heldIn
  have input := reached.steps wroteIn.moved.steps
  have wroteOut := @writeStream_spares _ _ 1 _ input (by rwa [writeStream_live]) heldOut
  have output := input.steps wroteOut.moved.steps
  have wroteErr := @writeStream_spares _ _ 2 _ output
    (by rwa [writeStream_live, writeStream_live]) heldErr
  exact ((taken.trans wroteIn).trans wroteOut).trans wroteErr

end

/-- The records of the standard streams, with what `kmalloc` answered. -/
theorem streams_stored (reached : Heap.Reachable session) :
    ∃ first second third stdin stdout stderr,
      allocate session fileSize = some (first, stdin) ∧
      allocate first fileSize = some (second, stdout) ∧
      allocate second fileSize = some (third, stderr) ∧
      Stored (writeStream (writeStream (writeStream third 0 stdin) 1 stdout) 2 stderr)
        (streams stdin stdout stderr) [] ∧
      Spares session (writeStream (writeStream (writeStream third 0 stdin) 1 stdout) 2 stderr)
        ∅ (streams stdin stdout stderr).live ∧
      ∀ rest, FreshAnswers (streams stdin stdout stderr).live rest →
        FreshAnswers ∅ (stdin :: stdout :: stderr :: rest) := by
  have small : fileSize ≤ 0xFFFFFFE8 := by decide
  obtain ⟨first, stdin, firstTaken, handedIn⟩ := allocate_handed reached small
  have firstReached := reached.steps handedIn.moved.steps
  obtain ⟨second, stdout, secondTaken, handedOut⟩ := allocate_handed firstReached small
  have secondReached := firstReached.steps handedOut.moved.steps
  obtain ⟨third, stderr, thirdTaken, handedErr⟩ := allocate_handed secondReached small
  have thirdReached := secondReached.steps handedErr.moved.steps
  have unused : Backed session ∅ := fun _ member => absurd member (by simp)
  obtain ⟨freshIn, backedIn⟩ := unused.handed handedIn
  obtain ⟨freshOut, backedOut⟩ := backedIn.handed handedOut
  obtain ⟨freshErr, _⟩ := backedOut.handed handedErr
  obtain ⟨memberIn, memberOut, memberErr⟩ := streams_members handedIn handedOut handedErr
  have input := (unbooted_stored thirdReached).stream freshIn memberIn
    (show 0 < maxFiles by decide) rfl
  have output := input.stream (by rw [initStream_live]; exact freshOut)
    (by rwa [writeStream_live]) (show 1 < maxFiles by decide)
    (input_free (by decide))
  have error := output.stream (by rw [initStream_live, initStream_live]; exact freshErr)
    (by rwa [writeStream_live, writeStream_live])
    (show 2 < maxFiles by decide) output_free
  refine ⟨first, second, third, stdin, stdout, stderr, firstTaken, secondTaken, thirdTaken, error,
    streams_spares thirdReached handedIn handedOut handedErr, fun rest later => ?_⟩
  rw [streams_live] at later
  exact freshAnswers_cons freshIn (freshAnswers_cons freshOut (freshAnswers_cons freshErr later))

theorem streams_openFiles :
    (streams stdin stdout stderr).openFiles = standardFiles stdin stdout stderr := by
  funext index
  rw [streams, initStream_openFiles output_free, initStream_openFiles (input_free (by decide)),
    initStream_openFiles rfl]
  simp only [Function.update_apply, standardFiles]
  split_ifs with err out inp <;> first | rfl | omega

theorem booted_streams (fresh : FreshAnswers ∅ [stdin, stdout, stderr, root, sb]) :
    Booted (initRoot (streams stdin stdout stderr) root sb) :=
  @Booted.init _ _ unbooted stdin stdout stderr root sb rfl ⟨rfl, rfl⟩ fresh

/-- The superblock that `init_fs` asks for: the root is listed with it, or
given up without it. -/
theorem Stored.superblock (stored : Stored session fs []) (fresh : block ∉ fs.live)
    (member : ⟨block, mountSize⟩ ∈ session.live)
    (record : MountAt session.heap.memory block ⟨ramName, rootName, none, none⟩) :
    ∃ next sb linked, allocate session superblockSize = some (next, sb) ∧
      linked = (storing next fun memory => memory.store32 (block + 288) (pointerWord sb)) ∧
      FreshAnswers fs.live [some block, sb] ∧
      (sb = none → Stored (release linked block) (initRoot fs (some block) none) [] ∧
        Spares session (release linked block) (insert block fs.live)
          (initRoot fs (some block) none).live) ∧
      ∀ handed, sb = some handed →
        Stored (storing linked fun memory => storeSuperblock memory handed)
          (initRoot fs (some block) (some handed)) [block] ∧
        Spares session (storing linked fun memory => storeSuperblock memory handed)
          (insert block fs.live) (initRoot fs (some block) (some handed)).live := by
  obtain ⟨next, sb, taken, handed, allocated⟩ :=
    stored.allocates (show superblockSize ≤ 0xFFFFFFE8 by decide)
  have still : ⟨block, mountSize⟩ ∈ next.live := handed.moved.stays _ member id
  have kept : MountAt next.heap.memory block ⟨ramName, rootName, none, none⟩ :=
    record.congr (handed.moved.bytes _ member id id)
  have confined : Memory.Confined block (block + mountSize) next.heap.memory
      (next.heap.memory.store32 (block + 288) (pointerWord sb)) :=
    Memory.Confined.refl.store32 (by omega) (by rw [mountSize]; omega)
  have linked := allocated.stores
    (fun memory => memory.store32 (block + 288) (pointerWord sb)) fresh still confined
  have held : block ∈ withAnswer (insert block fs.live) sb :=
    subset_withAnswer (Finset.mem_insert_self block fs.live)
  have spares := handed.spares.trans (@storing_spares _ _ _ _
    (fun memory => memory.store32 (block + 288) (pointerWord sb)) allocated.reached still confined
    held)
  cases sb with
  | none =>
      refine ⟨next, none, _, taken, rfl, ⟨fresh, trivial⟩, fun _ => ?_,
        fun _ same => absurd same (by simp)⟩
      exact ⟨(linked.released fresh still).unrooted fresh,
        spares.trans (release_spares linked.reached still held (Finset.erase_subset _ _))⟩
  | some sb =>
      have sbMember : ⟨sb, superblockSize⟩ ∈ next.live := handed.member sb rfl
      have proper : some sb ≠ some 0 := by
        rintro same
        obtain rfl := Option.some.inj same
        exact absurd (bounds allocated.reached sbMember).1 (by decide)
      have apart : (block : Nat) ≠ sb := handed.others sb rfl _ member
      have outside : sb ∉ fs.live := stored.fresh handed
      have sbFresh : sb ∉ insert block fs.live := by
        simp only [Finset.mem_insert, not_or]
        exact ⟨fun same => apart (congrArg Fin.val same.symm), outside⟩
      refine ⟨next, some sb, _, taken, rfl, ⟨fresh, sbFresh, trivial⟩,
        fun same => absurd same (by simp), fun other same => ?_⟩
      obtain rfl := Option.some.inj same
      have filled := linked.stores (fun memory => storeSuperblock memory sb) outside sbMember
        storeSuperblock_confined
      have wrote := @storing_moved _ _ _ (fun memory => storeSuperblock memory sb)
        linked.reached sbMember storeSuperblock_confined
      have record := (kept.superblock proper).congr (wrote.bytes _ still id apart)
      exact ⟨filled.rooted fresh sbFresh still sbMember record, spares.trans
        (@storing_spares _ _ _ _ (fun memory => storeSuperblock memory sb) linked.reached sbMember
          storeSuperblock_confined (Finset.mem_insert_self _ _))⟩

/-- `init_fs` returns, and its records are in the memory. -/
theorem initFs_represents (reached : Heap.Reachable session) :
    ∃ start fs list, Storage.initFs session = some start ∧ Booted fs ∧ Represents start fs list ∧
      Spares session start.session ∅ fs.live := by
  obtain ⟨first, second, third, stdin, stdout, stderr, firstTaken, secondTaken, thirdTaken, stored,
    spares, fresh⟩ := streams_stored reached
  obtain ⟨fourth, root, rootTaken, handed, rootStored⟩ :=
    stored.allocates (show mountSize ≤ 0xFFFFFFE8 by decide)
  have table := (@streams_openFiles stdin stdout stderr).symm
  have head := (@streams_mountedFsList stdin stdout stderr).symm
  cases root with
  | none =>
      refine ⟨⟨fourth, none, standardFiles stdin stdout stderr⟩, _, [], ?_,
        booted_streams (fresh [none, none] trivial), ⟨rootStored, head, table⟩,
        spares.trans handed.spares⟩
      simp only [Storage.initFs, firstTaken, secondTaken, thirdTaken, rootTaken,
        Option.bind_eq_bind, Option.bind_some]
  | some block =>
      have outside := stored.fresh handed
      have written := rootStored.stores (fun memory => storeRoot memory block) outside
        (handed.member block rfl) storeRoot_confined
      obtain ⟨fifth, sb, linked, sbTaken, same, answers, given, listed⟩ :=
        written.superblock outside (handed.member block rfl) storeRoot_at
      subst same
      have rooted := (spares.trans handed.spares).trans (@storing_spares _ _ _ _
        (fun memory => storeRoot memory block) rootStored.reached (handed.member block rfl)
        storeRoot_confined (Finset.mem_insert_self _ _))
      cases sb with
      | none =>
          refine ⟨⟨_, none, standardFiles stdin stdout stderr⟩, _, [], ?_,
            booted_streams (fresh _ answers), ⟨(given rfl).1, head, table⟩,
            rooted.trans (given rfl).2⟩
          simp only [Storage.initFs, firstTaken, secondTaken, thirdTaken, rootTaken, sbTaken,
            Option.bind_eq_bind, Option.bind_some]
          rfl
      | some sb =>
          refine ⟨⟨_, some block, standardFiles stdin stdout stderr⟩, _, [block], ?_,
            booted_streams (fresh _ answers), ⟨(listed sb rfl).1, rfl, table⟩,
            rooted.trans (listed sb rfl).2⟩
          simp only [Storage.initFs, firstTaken, secondTaken, thirdTaken, rootTaken, sbTaken,
            Option.bind_eq_bind, Option.bind_some]
          rfl

theorem Represents.step (represents : Represents storage fs list)
    (step : Storage.Step storage after) :
    ∃ now list, Relation.ReflTransGen FsStep fs now ∧ Represents after now list := by
  cases step with
  | @called _ call code returned =>
      obtain ⟨next, answered, granted, later, rest, handled, fresh, applied, kept, _⟩ :=
        represents.handle call
      cases handled.symm.trans returned
      exact ⟨later, rest, .single (.called fresh applied), kept⟩
  | client moved => exact ⟨fs, list, .refl, represents.client moved⟩

theorem Represents.run (represents : Represents storage fs list)
    (steps : Relation.ReflTransGen Storage.Step storage after) :
    ∃ now list, Relation.ReflTransGen FsStep fs now ∧ Represents after now list := by
  induction steps with
  | refl => exact ⟨fs, list, .refl, represents⟩
  | tail _ step ih =>
      obtain ⟨earlier, before, run, kept⟩ := ih
      obtain ⟨now, list, more, represents⟩ := kept.step step
      exact ⟨now, list, run.trans more, represents⟩

/-- On a heap in any state `init_fs` returns, and in every run of calls from
there, between which others use the heap, the memory holds the file system that
the calls make: the calls all return what they return on it, and the blocks
that it has not freed are the ones that it can get at.  Neither `init_fs` nor a
call touches what others have of the heap. -/
theorem file_system_in_memory (reached : Heap.Reachable session) :
    ∃ start fs list, Storage.initFs session = some start ∧ Booted fs ∧ Represents start fs list ∧
      Spares session start.session ∅ fs.live ∧
      ∀ storage, Relation.ReflTransGen Storage.Step start storage →
        ∃ now list, Relation.ReflTransGen FsStep fs now ∧ Represents storage now list ∧
          (∀ block, storage.Holds block ↔ block ∈ now.live) ∧
          (∀ call, Refines storage now call) ∧
          (∀ behind console fd buf count,
            storage.read behind console fd buf count = read behind now console fd buf count) ∧
          ∀ console fd buf count,
            storage.write console fd buf count = write now console fd buf count := by
  obtain ⟨start, fs, list, boots, booted, represents, spares⟩ := initFs_represents reached
  refine ⟨start, fs, list, boots, booted, represents, spares, fun storage steps => ?_⟩
  obtain ⟨now, list, run, kept⟩ := represents.run steps
  exact ⟨now, list, run, kept, fun block => kept.holds_iff, kept.handle,
    fun _ _ _ _ _ => kept.read_eq, fun _ _ _ _ => kept.write_eq⟩

end

/-- On the heap of `kernel_main` somebody has a block before `init_fs`, and
writes into it between a `mount` and its `umount`. -/
theorem mount_write_umount :
    ∃ session start listed last,
      allocate (Heap.Session.initial (fun _ => 0) 0xE0000000 0x10000000) 100 =
        some (session, some 0xD0000010) ∧
      Storage.initFs session = some start ∧
      start.handle (.mount ramName ramName ramName) = some (listed, 0) ∧
      Storage.handle
          { listed with
            session := storing listed.session fun memory => memory.store8 0xD0000010 7 }
          (.umount ramName) = some (last, 0) := by
  have calls :
      ((allocate (Heap.Session.initial (fun _ => 0) 0xE0000000 0x10000000) 100).bind fun taken =>
        (Storage.initFs taken.1).bind fun start =>
        (start.handle (.mount ramName ramName ramName)).bind fun listed =>
        (Storage.handle
          { listed.1 with
            session := storing listed.1.session fun memory => memory.store8 0xD0000010 7 }
          (.umount ramName)).map fun last => (taken.2, listed.2, last.2)) =
      some (some 0xD0000010, 0, 0) := by
    simp only [Storage.handle, Storage.mount, Storage.umount, Fintype.card_fin]
    decide +kernel
  obtain ⟨⟨session, answer⟩, taken, calls⟩ := Option.bind_eq_some_iff.mp calls
  obtain ⟨start, boots, calls⟩ := Option.bind_eq_some_iff.mp calls
  obtain ⟨⟨listed, added⟩, mounts, calls⟩ := Option.bind_eq_some_iff.mp calls
  obtain ⟨⟨last, removed⟩, unmounts, codes⟩ := Option.map_eq_some_iff.mp calls
  obtain ⟨rfl, both⟩ := Prod.mk.inj codes
  obtain ⟨rfl, rfl⟩ := Prod.mk.inj both
  exact ⟨session, start, listed, last, taken, boots, mounts, unmounts⟩

/-- What was written is there after the `umount`. -/
theorem file_system_in_memory_unmounted :
    ∃ session start listed last,
      Storage.initFs session = some start ∧
      start.handle (.mount ramName ramName ramName) = some (listed, 0) ∧
      Storage.handle
          { listed with
            session := storing listed.session fun memory => memory.store8 0xD0000010 7 }
          (.umount ramName) = some (last, 0) ∧
      last.memory 0xD0000010 = 7 ∧
      ∃ now list, Represents last now list ∧ ∀ block, last.Holds block ↔ block ∈ now.live := by
  obtain ⟨session, start, listed, last, taken, boots, mounts, unmounts⟩ := mount_write_umount
  have initial : Heap.Reachable (Heap.Session.initial (fun _ => 0) 0xE0000000 0x10000000) :=
    ⟨_, _, _, .refl⟩
  obtain ⟨_, _, again, handed⟩ := allocate_handed initial (show 100 ≤ 0xFFFFFFE8 by decide)
  obtain ⟨rfl, rfl⟩ := Prod.mk.inj (Option.some.inj (taken.symm.trans again))
  have reached := initial.steps handed.moved.steps
  obtain ⟨_, fs, list, begun, _, represents, spares, along⟩ := file_system_in_memory reached
  obtain rfl := Option.some.inj (boots.symm.trans begun)
  obtain ⟨_, _, _, later, after, returned, _, _, kept, mountSpares⟩ :=
    represents.handle (.mount ramName ramName ramName)
  obtain ⟨rfl, rfl⟩ := Prod.mk.inj (Option.some.inj (mounts.symm.trans returned))
  -- The block is nobody else's when `init_fs` and `mount` have returned.
  have unheld : ¬Held ∅ 0xD0000010 := fun ⟨_, inside, _⟩ => absurd inside (Finset.notMem_empty _)
  obtain ⟨member, apart⟩ := spares.keeps (handed.member _ rfl) unheld
  obtain ⟨still, others⟩ := mountSpares.keeps member apart
  have foreign : ∀ block, listed.Holds block → 0xD0000010 ≠ (block : Nat) := fun block holds same =>
    others ⟨block, kept.holds_iff.mp holds, same⟩
  obtain ⟨blocks, consistent⟩ := kept.reached.consistent
  have wrote := Storage.Client.write _ still foreign 0xD0000010 7
    (consistent.requested_inPayload still le_rfl (Nat.lt_add_of_pos_right (by decide)))
  have run := (Relation.ReflTransGen.single (Storage.Step.called mounts)).tail (.client wrote)
  obtain ⟨now, _, _, _, holds, refines, _⟩ := along _ run
  obtain ⟨_, _, _, _, _, answered, _, _, _, umountSpares⟩ := refines (.umount ramName)
  obtain ⟨rfl, rfl⟩ := Prod.mk.inj (Option.some.inj (unmounts.symm.trans answered))
  have outside : ¬Held now.live 0xD0000010 := fun ⟨block, inside, same⟩ =>
    others ⟨block, (kept.client wrote).holds_iff.mp ((holds block).mpr inside), same⟩
  have bytes := umountSpares.moved.bytes _ still outside outside 0xD0000010 le_rfl
    (Nat.lt_add_of_pos_right (by decide))
  have seven := @Memory.store8_same listed.session.heap.memory 0xD0000010 7
  obtain ⟨final, list, _, represents, holds, _⟩ := along last (run.tail (.called unmounts))
  exact ⟨session, start, listed, last, boots, mounts, unmounts, bytes.trans seven, final, list,
    represents, holds⟩

end Helios.Fs
