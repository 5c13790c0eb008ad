import Helios.Fs.Invariant

namespace Helios.Fs

open Helios.Data Helios.Strings FileSystem

/-! What each call of the file system does, in a state where the mount list and
the table are in order, and the states that `init_fs` leaves behind. -/

section

variable {ι : Type} [DecidableEq ι] {fs : FileSystem ι} {list front back : List ι} {block : ι}

/-- What a call can do. -/
inductive Change (fs : FileSystem ι) (list : List ι) : FileSystem ι → List ι → Prop
  | nothing : Change fs list fs list
  | mounted {block : ι} {device mountpoint : CString} (fresh : block ∉ fs.live) :
      Change fs list (addMount fs block device mountpoint) (block :: list)
  | unmounted {front back : List ι} {block : ι} (member : list = front ++ block :: back) :
      Change fs list (unlinkMount fs front.getLast? block) (front ++ back)
  | opened {index : Nat} {block : ι} {file : File} (fresh : block ∉ fs.live)
      (inside : index < maxFiles) (free : fs.openFiles index = none) :
      Change fs list ((fs.fillFile block file).setOpen index (some block)) list
  | rejected {block : ι} {file : File} (fresh : block ∉ fs.live) :
      Change fs list ((fs.fillFile block file).freeFile block) list
  | closed {index : Nat} {block : ι} (here : fs.openFiles index = some block) :
      Change fs list ((fs.freeFile block).setOpen index none) list

theorem Sound.change {next : FileSystem ι} {after : List ι} (sound : Sound fs list)
    (change : Change fs list next after) : Sound next after := by
  cases change with
  | nothing => exact sound
  | mounted fresh => exact sound.addMount fresh
  | unmounted member =>
      subst member
      exact sound.unlinked
  | opened fresh inside free => exact sound.opened fresh inside free
  | rejected fresh => exact sound.rejected fresh
  | closed here => exact sound.closed here

theorem Accounted.change {next : FileSystem ι} {after : List ι} (accounted : Accounted fs)
    (sound : Sound fs list) (change : Change fs list next after) : Accounted next := by
  cases change with
  | nothing => exact accounted
  | mounted fresh => exact accounted.congr rfl rfl rfl
  | @unmounted front _ block _ =>
      obtain ⟨openFiles, allocated, freed⟩ := @unlinkMount_files _ _ fs block front.getLast?
      exact accounted.congr openFiles allocated freed
  | opened fresh inside free =>
      exact accounted.opened (fun other here => fresh (sound.files other _ here).1) free
  | rejected fresh => exact accounted.rejected
  | closed here => exact accounted.closed here fun other there => sound.distinct other _ _ there here

/-- A state that `init_fs` leaves behind. -/
inductive Booted : FileSystem ι → Prop
  | init {start : FileSystem ι} {stdin stdout stderr root sb : Option ι}
      (unmounted : start.mountedFsList = none) (unused : start.allocated = [] ∧ start.freed = [])
      (fresh : FreshAnswers start.live [stdin, stdout, stderr, root, sb]) :
      Booted (initFs start stdin stdout stderr root sb)

theorem initStream_change {answer : Option ι} {rest : List (Option ι)} {index : Nat}
    (fresh : FreshAnswers fs.live (answer :: rest)) (inside : index < maxFiles)
    (free : ∀ other, index ≤ other → fs.openFiles other = none) :
    Change fs list (initStream fs index answer) list ∧
      FreshAnswers (initStream fs index answer).live rest ∧
      ∀ other, index + 1 ≤ other → (initStream fs index answer).openFiles other = none := by
  cases answer with
  | none => exact ⟨.nothing, fresh, fun other above => free other (by omega)⟩
  | some block =>
      refine ⟨.opened fresh.1 inside (free index (by omega)), fresh.2, fun other above => ?_⟩
      have different : other ≠ index := by omega
      simpa [initStream, setOpen, fillFile, grant, different] using free other (by omega)

/-- The mount list is empty, or the root file system alone is on it. -/
def RootOnly (fs : FileSystem ι) (list : List ι) : Prop :=
  list = [] ∨ ∃ block, list = [block] ∧ (fs.mounted block).mountpoint = rootName

theorem Sound.initRoot {root sb : Option ι} (sound : Sound fs [])
    (fresh : FreshAnswers fs.live [root, sb]) :
    ∃ after, Sound (initRoot fs root sb) after ∧ RootOnly (Fs.initRoot fs root sb) after := by
  cases root with
  | none => exact ⟨[], sound, .inl rfl⟩
  | some block =>
      obtain ⟨outside, others⟩ := fresh
      cases sb with
      | none =>
          refine ⟨[], ⟨sound.chain, by simp, by simp, by simp, ?_, sound.distinct, sound.bounded⟩,
            .inl rfl⟩
          intro index file here
          have live := (sound.files index file here).1
          have apart : file ≠ block := fun same => outside (same ▸ live)
          simp [Fs.initRoot, grant, kfree, apart, live]
      | some sb =>
          have apart : sb ≠ block ∧ sb ∉ fs.live := by simpa using others.1
          refine ⟨[block], ⟨⟨rfl, by simp [link, Fs.initRoot, grant, Chain]⟩, ?_, ?_, ?_, ?_,
            sound.distinct, sound.bounded⟩, .inr ⟨block, rfl, by simp [Fs.initRoot, grant]⟩⟩
          · simp [Fs.initRoot, grant]
          · intro other member answer here
            have same : other = block := by simpa using member
            subst same
            have stored : sb = answer := by simpa [Fs.initRoot, grant] using here
            subst stored
            refine ⟨by simp [Fs.initRoot, grant], by simpa using apart.1, fun index there => ?_⟩
            exact apart.2 (sound.files index sb there).1
          · intro one oneMember other otherMember
            have first : one = block := by simpa using oneMember
            have second : other = block := by simpa using otherMember
            simp [first, second]
          · intro index file here
            have live := (sound.files index file here).1
            have different : file ≠ block := fun same => outside (same ▸ live)
            simp [Fs.initRoot, grant, different, live]

theorem Accounted.initRoot {root sb : Option ι} (accounted : Accounted fs) :
    Accounted (initRoot fs root sb) := by
  cases root with
  | none => exact accounted
  | some block =>
      cases sb with
      | none => exact accounted.congr rfl rfl rfl
      | some sb => exact accounted.congr rfl rfl rfl

theorem Booted.ready (booted : Booted fs) :
    ∃ list, Sound fs list ∧ Accounted fs ∧ RootOnly fs list := by
  cases booted with
  | @init start stdin stdout stderr root sb unmounted unused fresh =>
      have sound : Sound { start with openFiles := fun _ => none } [] :=
        ⟨unmounted, by simp, by simp, by simp, by simp, by simp, by simp⟩
      have accounted : Accounted { start with openFiles := fun _ => none } :=
        ⟨by simp, by simp [unused.1, unused.2]⟩
      obtain ⟨first, fresh, free⟩ := @initStream_change _ _
        { start with openFiles := fun _ => none } [] stdin [stdout, stderr, root, sb] 0
        fresh (by decide) (by simp)
      obtain ⟨second, fresh, free⟩ := @initStream_change _ _ _ [] stdout [stderr, root, sb] 1
        fresh (by decide) free
      obtain ⟨third, fresh, _⟩ := @initStream_change _ _ _ [] stderr [root, sb] 2
        fresh (by decide) free
      have before := ((sound.change first).change second).change third
      obtain ⟨after, ready, rooted⟩ := before.initRoot fresh
      have counted := ((accounted.change sound first).change (sound.change first) second).change
        ((sound.change first).change second) third
      exact ⟨after, ready, counted.initRoot, rooted⟩

section

variable [Fintype ι] {mountpoint device fstype : CString} {granted : Option ι}

theorem mount_taken (sound : Sound fs list) (member : block ∈ list)
    (here : mountedAt fs mountpoint block = true) :
    mount fs device mountpoint fstype granted = some (fs, -1) := by
  rw [mount.eq_def, search_eq sound.chain sound.length_lt]
  cases found : list.find? (mountedAt fs mountpoint) with
  | none =>
      have missing := List.find?_eq_none.mp found block member
      exact absurd here missing
  | some other => rfl

theorem mount_free (sound : Sound fs list)
    (missing : ∀ block ∈ list, mountedAt fs mountpoint block = false) :
    mount fs device mountpoint fstype granted = some (match granted with
      | none => (fs, -1)
      | some block => (addMount fs block device mountpoint, 0)) := by
  have found : list.find? (mountedAt fs mountpoint) = none :=
    List.find?_eq_none.mpr fun block member => by simp [missing block member]
  rw [mount.eq_def, search_eq sound.chain sound.length_lt, found]
  rfl

theorem umount_missing (sound : Sound fs list)
    (missing : ∀ block ∈ list, mountedAt fs mountpoint block = false) :
    umount fs mountpoint = some (fs, -1) := by
  rw [umount, searchPrev_missing sound.chain sound.length_lt missing]
  rfl

theorem umount_found (sound : Sound fs (front ++ block :: back))
    (here : mountedAt fs mountpoint block = true)
    (earlier : ∀ other ∈ front, mountedAt fs mountpoint other = false) :
    umount fs mountpoint = some (unlinkMount fs front.getLast? block, 0) := by
  have enough := sound.length_lt
  rw [List.length_append] at enough
  rw [umount, searchPrev_found sound.chain (by omega) here earlier, Option.or_none]
  rfl

omit [DecidableEq ι] [Fintype ι] in
theorem mountedAt_cases (fs : FileSystem ι) (mountpoint : CString) (list : List ι) :
    (∀ block ∈ list, mountedAt fs mountpoint block = false) ∨
      ∃ front block back, list = front ++ block :: back ∧ mountedAt fs mountpoint block = true ∧
        ∀ other ∈ front, mountedAt fs mountpoint other = false := by
  cases found : list.find? (mountedAt fs mountpoint) with
  | none => exact .inl fun block member => by simpa using List.find?_eq_none.mp found block member
  | some block =>
      obtain ⟨here, front, back, shape, earlier⟩ := List.find?_eq_some_iff_append.mp found
      exact .inr ⟨front, block, back, shape, here, fun other member => by
        simpa using earlier other member⟩

theorem openFile_null (sound : Sound fs list) {path : CString} {flags mode : Int} :
    openFile fs path flags mode none = some (fs, -1) := by
  rw [openFile, findMount, search_eq sound.chain sound.length_lt]
  rfl

theorem openFile_full (sound : Sound fs list) {path : CString} {flags mode : Int}
    (full : freeIndex fs = none) : openFile fs path flags mode (some block) =
      some ((fs.fillFile block (newFile path flags)).freeFile block, -1) := by
  have still : freeIndex (fs.fillFile block (newFile path flags)) = none := full
  rw [openFile, findMount, search_eq sound.chain sound.length_lt]
  simp [still]

theorem openFile_free (sound : Sound fs list) {path : CString} {flags mode : Int} {index : Nat}
    (free : freeIndex fs = some index) : openFile fs path flags mode (some block) =
      some ((fs.fillFile block (newFile path flags)).setOpen index (some block), (index : Int)) := by
  have still : freeIndex (fs.fillFile block (newFile path flags)) = some index := free
  rw [openFile, findMount, search_eq sound.chain sound.length_lt]
  simp [still]

omit [DecidableEq ι] [Fintype ι] in
theorem freeIndex_eq_none : freeIndex fs = none ↔ ∀ index < maxFiles, fs.openFiles index ≠ none := by
  simp [freeIndex]

omit [DecidableEq ι] [Fintype ι] in
theorem freeIndex_eq_some {index : Nat} : freeIndex fs = some index ↔
    IsLeast {index | index < maxFiles ∧ fs.openFiles index = none} index := by
  rw [freeIndex, List.find?_range_eq_some]
  simp only [IsLeast, lowerBounds, Set.mem_ofPred_eq, List.mem_range, Option.isNone_iff_eq_none,
    Bool.not_eq_true', Option.isNone_eq_false_iff]
  constructor
  · rintro ⟨empty, inside, earlier⟩
    refine ⟨⟨inside, empty⟩, fun other free => ?_⟩
    by_contra below
    have used := earlier other (by omega)
    simp [free.2] at used
  · rintro ⟨⟨inside, empty⟩, least⟩
    refine ⟨empty, inside, fun other below => ?_⟩
    rw [Option.isSome_iff_ne_none]
    intro free
    exact absurd (least ⟨by omega, free⟩) (by omega)

omit [Fintype ι] in
theorem closeFile_open {index : Nat} (inside : index < maxFiles)
    (here : fs.openFiles index = some block) :
    closeFile fs index = ((fs.freeFile block).setOpen index none, 0) := by
  rw [closeFile, if_neg (by omega)]
  simp [here]

omit [Fintype ι] in
theorem closeFile_missing {fd : Int} (missing : ∀ index : Nat, fd = index → index < maxFiles →
    fs.openFiles index = none) : closeFile fs fd = (fs, -1) := by
  rw [closeFile]
  split
  · rfl
  · rename_i inside
    have empty := missing fd.toNat (by omega) (by omega)
    simp [empty]

omit [Fintype ι] in
theorem closeFile_cases (fs : FileSystem ι) (fd : Int) : closeFile fs fd = (fs, -1) ∨
    ∃ (index : Nat) (block : ι), fd = index ∧ index < maxFiles ∧ fs.openFiles index = some block ∧
      closeFile fs fd = ((fs.freeFile block).setOpen index none, 0) := by
  by_cases here : ∃ (index : Nat) (block : ι), fd = index ∧ index < maxFiles ∧
      fs.openFiles index = some block
  · obtain ⟨index, block, same, inside, entry⟩ := here
    exact .inr ⟨index, block, same, inside, entry, same ▸ closeFile_open inside entry⟩
  · refine .inl (closeFile_missing fun index same inside => ?_)
    cases entry : fs.openFiles index with
    | none => rfl
    | some block => exact absurd ⟨index, block, same, inside, entry⟩ here

/-- What a call does, and the code that it returns for it. -/
inductive Effect (fs : FileSystem ι) (list : List ι) :
    Event ι → FileSystem ι → Int → List ι → Prop
  | refused {event : Event ι} : Effect fs list event fs (-1) list
  | mounted {device mountpoint fstype : CString} {block : ι}
      (missing : ∀ block ∈ list, mountedAt fs mountpoint block = false) :
      Effect fs list (.mount device mountpoint fstype (some block))
        (addMount fs block device mountpoint) 0 (block :: list)
  | unmounted {mountpoint : CString} {front back : List ι} {block : ι}
      (member : list = front ++ block :: back) (here : mountedAt fs mountpoint block = true) :
      Effect fs list (.umount mountpoint) (unlinkMount fs front.getLast? block) 0 (front ++ back)
  | opened {path : CString} {flags mode : Int} {block : ι} {index : Nat}
      (free : freeIndex fs = some index) :
      Effect fs list (.openFile path flags mode (some block))
        ((fs.fillFile block (newFile path flags)).setOpen index (some block)) index list
  | rejected {path : CString} {flags mode : Int} {block : ι} (full : freeIndex fs = none) :
      Effect fs list (.openFile path flags mode (some block))
        ((fs.fillFile block (newFile path flags)).freeFile block) (-1) list
  | closed {index : Nat} {block : ι} (here : fs.openFiles index = some block) :
      Effect fs list (.closeFile index) ((fs.freeFile block).setOpen index none) 0 list

/-- Every call returns, and does one of these things. -/
theorem Sound.effect (sound : Sound fs list) (event : Event ι) :
    ∃ next code after, handle fs event = some (next, code) ∧
      Effect fs list event next code after := by
  cases event with
  | mount device mountpoint fstype granted =>
      cases mountedAt_cases fs mountpoint list with
      | inl missing =>
          have free := @mount_free _ _ fs list _ mountpoint device fstype granted sound missing
          cases granted with
          | none => exact ⟨fs, -1, list, free, .refused⟩
          | some block => exact ⟨_, _, _, free, .mounted missing⟩
      | inr taken =>
          obtain ⟨front, block, back, shape, here, _⟩ := taken
          have member : block ∈ list := by simp [shape]
          exact ⟨fs, -1, list, @mount_taken _ _ fs list block _ mountpoint device fstype granted
            sound member here, .refused⟩
  | umount mountpoint =>
      cases mountedAt_cases fs mountpoint list with
      | inl missing => exact ⟨fs, -1, list, umount_missing sound missing, .refused⟩
      | inr found =>
          obtain ⟨front, block, back, shape, here, earlier⟩ := found
          have split : Sound fs (front ++ block :: back) := shape ▸ sound
          exact ⟨_, _, _, umount_found split here earlier, .unmounted shape here⟩
  | openFile path flags mode granted =>
      cases granted with
      | none => exact ⟨fs, -1, list, by rw [handle, openFile_null sound], .refused⟩
      | some block =>
          cases free : freeIndex fs with
          | none => exact ⟨_, _, list, by rw [handle, openFile_full sound free], .rejected free⟩
          | some index => exact ⟨_, _, list, by rw [handle, openFile_free sound free], .opened free⟩
  | closeFile fd =>
      cases closeFile_cases fs fd with
      | inl missing => exact ⟨fs, -1, list, by rw [handle, missing], .refused⟩
      | inr closed =>
          obtain ⟨index, block, same, _, here, closed⟩ := closed
          subst same
          exact ⟨_, _, list, by rw [handle, closed], .closed here⟩

omit [Fintype ι] in
theorem Effect.change {event : Event ι} {next : FileSystem ι} {code : Int} {after : List ι}
    (effect : Effect fs list event next code after) (admissible : Admissible fs event) :
    Change fs list next after := by
  cases effect with
  | refused => exact .nothing
  | mounted missing => exact .mounted (admissible _ rfl)
  | unmounted member here => exact .unmounted member
  | opened free =>
      obtain ⟨inside, empty⟩ := (freeIndex_eq_some.mp free).1
      exact .opened (admissible _ rfl) inside empty
  | rejected full => exact .rejected (admissible _ rfl)
  | closed here => exact .closed here

theorem Sound.step {event : Event ι} (sound : Sound fs list) (admissible : Admissible fs event) :
    ∃ next after, Fs.step fs event = some next ∧ Change fs list next after := by
  obtain ⟨next, code, after, returned, effect⟩ := sound.effect event
  exact ⟨next, after, congrArg (Option.map Prod.fst) returned, effect.change admissible⟩

end

end

end Helios.Fs
