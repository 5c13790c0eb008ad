import Helios.Fs.Model

namespace Helios.Fs

open Helios.Data Helios.Strings FileSystem

/-! Who owns the blocks of the file system: the mount list, the superblocks of
its members and the table of open files, each block once. -/

section

variable {ι : Type}

structure Sound (fs : FileSystem ι) (list : List ι) : Prop where
  chain : Chain fs.link fs.mountedFsList list
  mounts : ∀ block ∈ list, block ∈ fs.live
  superblocks : ∀ block ∈ list, ∀ sb, (fs.mounted block).sb = some sb →
    sb ∈ fs.live ∧ sb ∉ list ∧ ∀ index, fs.openFiles index ≠ some sb
  ownSuperblock : ∀ block ∈ list, ∀ other ∈ list, ∀ sb,
    (fs.mounted block).sb = some sb → (fs.mounted other).sb = some sb → block = other
  files : ∀ index block, fs.openFiles index = some block → block ∈ fs.live ∧ block ∉ list
  distinct : ∀ index other block,
    fs.openFiles index = some block → fs.openFiles other = some block → index = other
  bounded : ∀ index, maxFiles ≤ index → fs.openFiles index = none

/-- Every `file_t` is in the table, or has been freed as often as it was
allocated. -/
structure Accounted [DecidableEq ι] (fs : FileSystem ι) : Prop where
  held : ∀ index block, fs.openFiles index = some block →
    fs.allocated.count block = fs.freed.count block + 1
  returned : ∀ block, (∀ index, fs.openFiles index ≠ some block) →
    fs.allocated.count block = fs.freed.count block

/-- `kmalloc` answers with `NULL` or a block that is not handed out. -/
def Fresh (fs : FileSystem ι) (granted : Option ι) : Prop :=
  ∀ block, granted = some block → block ∉ fs.live

/-- The same for successive calls. -/
def FreshAnswers [DecidableEq ι] : Finset ι → List (Option ι) → Prop
  | _, [] => True
  | live, none :: rest => FreshAnswers live rest
  | live, some block :: rest => block ∉ live ∧ FreshAnswers (insert block live) rest

def Admissible (fs : FileSystem ι) : Event ι → Prop
  | .mount _ _ _ granted => Fresh fs granted
  | .openFile _ _ _ granted => Fresh fs granted
  | _ => True

variable [DecidableEq ι] {fs : FileSystem ι} {list front back : List ι} {block : ι}

theorem link_setNext_same {next : Option ι} : (fs.setNext block next).link block = next := by
  simp [link, setNext]

theorem link_setNext_other {other : ι} {next : Option ι} (different : other ≠ block) :
    (fs.setNext block next).link other = fs.link other := by
  simp [link, setNext, different]

theorem sb_setNext {other : ι} {next : Option ι} :
    ((fs.setNext block next).mounted other).sb = (fs.mounted other).sb := by
  by_cases same : other = block
  · subst same
    simp [setNext]
  · simp [setNext, same]

theorem mountpoint_setNext {other : ι} {next : Option ι} :
    ((fs.setNext block next).mounted other).mountpoint = (fs.mounted other).mountpoint := by
  by_cases same : other = block
  · subst same
    simp [setNext]
  · simp [setNext, same]

theorem kfree_live {freed : Option ι} {other : ι} :
    other ∈ (fs.kfree freed).live ↔ other ∈ fs.live ∧ freed ≠ some other := by
  cases freed with
  | none => simp [kfree]
  | some block =>
      simp only [kfree, Finset.mem_erase, ne_eq, Option.some.injEq, and_comm, eq_comm]

theorem kfree_same {freed : Option ι} :
    (fs.kfree freed).mounted = fs.mounted ∧ (fs.kfree freed).mountedFsList = fs.mountedFsList ∧
      (fs.kfree freed).openFiles = fs.openFiles ∧ (fs.kfree freed).allocated = fs.allocated ∧
      (fs.kfree freed).freed = fs.freed := by
  cases freed with
  | none => exact ⟨rfl, rfl, rfl, rfl, rfl⟩
  | some block => exact ⟨rfl, rfl, rfl, rfl, rfl⟩

theorem kfree_link {freed : Option ι} : (fs.kfree freed).link = fs.link := by
  funext other
  simp only [link, kfree_same]

theorem addMount_self {device mountpoint : CString} :
    (addMount fs block device mountpoint).mounted block =
      ⟨strncpy device 31, strncpy mountpoint 255, none, fs.mountedFsList⟩ := by
  simp [addMount]

theorem addMount_other {device mountpoint : CString} {other : ι} (different : other ≠ block) :
    (addMount fs block device mountpoint).mounted other = fs.mounted other := by
  simp [addMount, different]

theorem addMount_live {device mountpoint : CString} {other : ι} :
    other ∈ (addMount fs block device mountpoint).live ↔ other = block ∨ other ∈ fs.live := by
  simp [addMount, grant]

theorem unlinkMount_files {prev : Option ι} :
    (unlinkMount fs prev block).openFiles = fs.openFiles ∧
      (unlinkMount fs prev block).allocated = fs.allocated ∧
      (unlinkMount fs prev block).freed = fs.freed := by
  cases prev with
  | none => simp only [unlinkMount, kfree_same, and_self]
  | some prev => simp only [unlinkMount, kfree_same, setNext, and_self]

theorem unlinkMount_file {prev : Option ι} : (unlinkMount fs prev block).file = fs.file := by
  have freed : ∀ (fs : FileSystem ι) sb, (fs.kfree sb).file = fs.file := fun fs sb => by
    cases sb with
    | none => rfl
    | some sb => rfl
  cases prev with
  | none => simp only [unlinkMount, freed]
  | some prev => simp only [unlinkMount, freed, setNext]

theorem sb_unlinkMount {prev : Option ι} {other : ι} :
    ((unlinkMount fs prev block).mounted other).sb = (fs.mounted other).sb := by
  cases prev with
  | none => simp only [unlinkMount, kfree_same]
  | some prev => simp only [unlinkMount, kfree_same, sb_setNext]

theorem mountpoint_unlinkMount {prev : Option ι} {other : ι} :
    ((unlinkMount fs prev block).mounted other).mountpoint = (fs.mounted other).mountpoint := by
  cases prev with
  | none => simp only [unlinkMount, kfree_same]
  | some prev => simp only [unlinkMount, kfree_same, mountpoint_setNext]

theorem unlinkMount_live {prev : Option ι} {other : ι} :
    other ∈ (unlinkMount fs prev block).live ↔
      other ∈ fs.live ∧ (fs.mounted block).sb ≠ some other ∧ block ≠ other := by
  cases prev with
  | none => simp only [unlinkMount, kfree_live, ne_eq, Option.some.injEq, and_assoc]
  | some prev => simp only [unlinkMount, kfree_live, setNext, ne_eq, Option.some.injEq, and_assoc]

namespace Sound

omit [DecidableEq ι] in
theorem length_lt [Fintype ι] (sound : Sound fs list) : list.length < Fintype.card ι + 1 :=
  Nat.lt_succ_of_le sound.chain.nodup.length_le_card

theorem addMount {device mountpoint : CString} (sound : Sound fs list) (fresh : block ∉ fs.live) :
    Sound (addMount fs block device mountpoint) (block :: list) := by
  have apart : ∀ other ∈ list, other ≠ block := fun other member same =>
    fresh (same ▸ sound.mounts other member)
  refine ⟨?_, ?_, ?_, ?_, ?_, sound.distinct, sound.bounded⟩
  · refine sound.chain.push (fun other member => ?_) ?_
    · simp only [link, addMount_other (apart other member)]
    · simp only [link, addMount_self]
  · intro other member
    rw [addMount_live]
    exact (List.mem_cons.mp member).imp_right (sound.mounts other)
  · intro other member sb here
    rcases List.mem_cons.mp member with same | earlier
    · simp [same, addMount_self] at here
    · rw [addMount_other (apart other earlier)] at here
      obtain ⟨live, outside, unopened⟩ := sound.superblocks other earlier sb here
      refine ⟨addMount_live.mpr (.inr live), ?_, unopened⟩
      simp only [List.mem_cons, not_or]
      exact ⟨fun same => fresh (same ▸ live), outside⟩
  · intro one oneMember other otherMember sb here there
    rcases List.mem_cons.mp oneMember with same | earlier
    · simp [same, addMount_self] at here
    · rcases List.mem_cons.mp otherMember with same | later
      · simp [same, addMount_self] at there
      · rw [addMount_other (apart one earlier)] at here
        rw [addMount_other (apart other later)] at there
        exact sound.ownSuperblock one earlier other later sb here there
  · intro index file opened
    obtain ⟨live, outside⟩ := sound.files index file opened
    refine ⟨addMount_live.mpr (.inr live), ?_⟩
    simp only [List.mem_cons, not_or]
    exact ⟨fun same => fresh (same ▸ live), outside⟩

theorem unlinked (sound : Sound fs (front ++ block :: back)) :
    Sound (unlinkMount fs front.getLast? block) (front ++ back) := by
  have member : block ∈ front ++ block :: back := by simp
  have apart : block ∉ front ++ back := by
    have distinct := sound.chain.nodup
    rw [List.nodup_middle] at distinct
    exact (List.nodup_cons.mp distinct).1
  have old : ∀ other ∈ front ++ back, other ∈ front ++ block :: back := by
    intro other inside
    rcases List.mem_append.mp inside with before | behind
    · simp [before]
    · simp [behind]
  have linked : Chain (unlinkMount fs front.getLast? block).link
      (unlinkMount fs front.getLast? block).mountedFsList (front ++ back) := by
    rcases List.eq_nil_or_concat front with empty | ⟨before, last, ending⟩
    · subst empty
      simp only [unlinkMount, List.getLast?_nil, kfree_link, kfree_same, List.nil_append]
      exact sound.chain.2
    · rw [List.concat_eq_append] at ending
      subst ending
      have joined : Chain fs.link fs.mountedFsList (before ++ last :: block :: back) := by
        simpa using sound.chain
      have chain := joined.unlink (fun other different => link_setNext_other different)
        (@link_setNext_same _ _ fs last (fs.link block))
      simp only [unlinkMount, List.getLast?_append, List.getLast?_singleton, Option.some_or,
        kfree_link, kfree_same, List.append_assoc, List.singleton_append]
      exact chain
  refine ⟨linked, ?_, ?_, ?_, ?_, ?_, ?_⟩
  · intro other inside
    rw [unlinkMount_live]
    refine ⟨sound.mounts other (old other inside), fun same => ?_, fun same => apart (same ▸ inside)⟩
    exact (sound.superblocks block member other same).2.1 (old other inside)
  · intro other inside sb here
    rw [sb_unlinkMount] at here
    obtain ⟨stays, outside, unopened⟩ := sound.superblocks other (old other inside) sb here
    rw [unlinkMount_live, unlinkMount_files.1]
    refine ⟨⟨stays, fun same => ?_, fun same => outside (same ▸ member)⟩,
      fun inner => outside (old sb inner), unopened⟩
    have equal := sound.ownSuperblock block member other (old other inside) sb same here
    exact apart (equal ▸ inside)
  · intro one oneInside other otherInside sb here there
    rw [sb_unlinkMount] at here there
    exact sound.ownSuperblock one (old one oneInside) other (old other otherInside) sb here there
  · intro index file here
    rw [unlinkMount_files.1] at here
    obtain ⟨stays, outside⟩ := sound.files index file here
    rw [unlinkMount_live]
    refine ⟨⟨stays, fun same => ?_, fun same => outside (same ▸ member)⟩,
      fun inside => outside (old file inside)⟩
    exact (sound.superblocks block member file same).2.2 index here
  · rw [unlinkMount_files.1]
    exact sound.distinct
  · rw [unlinkMount_files.1]
    exact sound.bounded

theorem opened {index : Nat} {file : File} (sound : Sound fs list) (fresh : block ∉ fs.live)
    (inside : index < maxFiles) (free : fs.openFiles index = none) :
    Sound ((fs.fillFile block file).setOpen index (some block)) list := by
  have unopened : ∀ other, fs.openFiles other ≠ some block := fun other here =>
    fresh (sound.files other block here).1
  have entry : ∀ other found, Function.update fs.openFiles index (some block) other = some found →
      other = index ∧ found = block ∨ other ≠ index ∧ fs.openFiles other = some found := by
    intro other found here
    by_cases same : other = index
    · subst same
      rw [Function.update_self] at here
      exact .inl ⟨rfl, (Option.some.inj here).symm⟩
    · rw [Function.update_of_ne same] at here
      exact .inr ⟨same, here⟩
  refine ⟨sound.chain, ?_, ?_, sound.ownSuperblock, ?_, ?_, ?_⟩
  · intro other member
    simp [fillFile, setOpen, grant, sound.mounts other member]
  · intro other member sb here
    obtain ⟨live, outside, elsewhere⟩ := sound.superblocks other member sb here
    refine ⟨by simp [fillFile, setOpen, grant, live], outside, fun position there => ?_⟩
    cases entry position sb there with
    | inl new => exact fresh (new.2 ▸ live)
    | inr kept => exact elsewhere position kept.2
  · intro other found here
    cases entry other found here with
    | inl new =>
        rw [new.2]
        exact ⟨by simp [fillFile, setOpen, grant], fun member => fresh (sound.mounts block member)⟩
    | inr kept =>
        obtain ⟨live, outside⟩ := sound.files other found kept.2
        exact ⟨by simp [fillFile, setOpen, grant, live], outside⟩
  · intro one other found here there
    cases entry one found here with
    | inl new =>
        cases entry other found there with
        | inl again => exact new.1.trans again.1.symm
        | inr kept => exact absurd (new.2 ▸ kept.2) (unopened other)
    | inr kept =>
        cases entry other found there with
        | inl new => exact absurd (new.2 ▸ kept.2) (unopened one)
        | inr again => exact sound.distinct one other found kept.2 again.2
  · intro other above
    have different : other ≠ index := by omega
    simp only [fillFile, setOpen, grant, Function.update_of_ne different]
    exact sound.bounded other above

theorem closed {index : Nat} (sound : Sound fs list) (here : fs.openFiles index = some block) :
    Sound ((fs.freeFile block).setOpen index none) list := by
  obtain ⟨_, unmounted⟩ := sound.files index block here
  have entry : ∀ other found, Function.update fs.openFiles index none other = some found →
      other ≠ index ∧ fs.openFiles other = some found := by
    intro other found there
    by_cases same : other = index
    · subst same
      rw [Function.update_self] at there
      cases there
    · rw [Function.update_of_ne same] at there
      exact ⟨same, there⟩
  refine ⟨sound.chain, ?_, ?_, sound.ownSuperblock, ?_, ?_, ?_⟩
  · intro other member
    have different : other ≠ block := fun same => unmounted (same ▸ member)
    simp [freeFile, setOpen, kfree, different, sound.mounts other member]
  · intro other member sb there
    obtain ⟨live, outside, elsewhere⟩ := sound.superblocks other member sb there
    have different : sb ≠ block := fun same => elsewhere index (same ▸ here)
    refine ⟨by simp [freeFile, setOpen, kfree, different, live], outside, fun position again => ?_⟩
    exact elsewhere position (entry position sb again).2
  · intro other found there
    obtain ⟨apart, kept⟩ := entry other found there
    obtain ⟨live, outside⟩ := sound.files other found kept
    have different : found ≠ block := by
      intro same
      subst same
      exact apart (sound.distinct other index found kept here)
    exact ⟨by simp [freeFile, setOpen, kfree, different, live], outside⟩
  · intro one other found first second
    exact sound.distinct one other found (entry one found first).2 (entry other found second).2
  · intro other above
    by_cases same : other = index
    · simp [freeFile, setOpen, same]
    · simp only [freeFile, setOpen, kfree, Function.update_of_ne same]
      exact sound.bounded other above

theorem rejected {file : File} (sound : Sound fs list) (fresh : block ∉ fs.live) :
    Sound ((fs.fillFile block file).freeFile block) list := by
  have live : ((fs.fillFile block file).freeFile block).live = fs.live := by
    simp [fillFile, freeFile, grant, kfree, fresh]
  refine ⟨sound.chain, ?_, ?_, sound.ownSuperblock, ?_, sound.distinct, sound.bounded⟩
  · rw [live]
    exact sound.mounts
  · rw [live]
    exact sound.superblocks
  · rw [live]
    exact sound.files

end Sound

namespace Accounted

theorem congr {after : FileSystem ι} (accounted : Accounted fs)
    (openFiles : after.openFiles = fs.openFiles) (allocated : after.allocated = fs.allocated)
    (freed : after.freed = fs.freed) : Accounted after := by
  refine ⟨fun index block here => ?_, fun block unopened => ?_⟩
  · rw [openFiles] at here
    rw [allocated, freed]
    exact accounted.held index block here
  · rw [openFiles] at unopened
    rw [allocated, freed]
    exact accounted.returned block unopened

/-- A block that is not in the table is allocated, and put into a free entry. -/
theorem opened {index : Nat} {file : File} (accounted : Accounted fs)
    (unopened : ∀ other, fs.openFiles other ≠ some block) (free : fs.openFiles index = none) :
    Accounted ((fs.fillFile block file).setOpen index (some block)) := by
  have balanced := accounted.returned block unopened
  refine ⟨fun other found here => ?_, fun found missing => ?_⟩
  · by_cases same : other = index
    · have equal : block = found := by simpa [setOpen, same] using here
      subst equal
      simp [setOpen, fillFile, grant, balanced]
    · have kept : fs.openFiles other = some found := by
        simpa [setOpen, fillFile, grant, same] using here
      have different : block ≠ found := fun equal => unopened other (equal ▸ kept)
      simpa [setOpen, fillFile, grant, List.count_cons, different] using accounted.held other found kept
  · have different : block ≠ found := by
      intro equal
      have entry := missing index
      simp [setOpen, equal] at entry
    have before : ∀ other, fs.openFiles other ≠ some found := by
      intro other here
      have apart : other ≠ index := fun same => by simp [same, free] at here
      exact missing other (by simpa [setOpen, fillFile, grant, apart] using here)
    simpa [setOpen, fillFile, grant, List.count_cons, different] using accounted.returned found before

theorem rejected {file : File} (accounted : Accounted fs) :
    Accounted ((fs.fillFile block file).freeFile block) := by
  refine ⟨fun index found here => ?_, fun found missing => ?_⟩
  · have before := accounted.held index found here
    simp only [fillFile, freeFile, grant, kfree, List.count_cons]
    omega
  · have before := accounted.returned found missing
    simp only [fillFile, freeFile, grant, kfree, List.count_cons]
    omega

theorem closed {index : Nat} (accounted : Accounted fs) (here : fs.openFiles index = some block)
    (distinct : ∀ other, fs.openFiles other = some block → other = index) :
    Accounted ((fs.freeFile block).setOpen index none) := by
  have counted := accounted.held index block here
  refine ⟨fun other found there => ?_, fun found missing => ?_⟩
  · by_cases same : other = index
    · simp [setOpen, same] at there
    · have kept : fs.openFiles other = some found := by
        simpa [setOpen, freeFile, kfree, same] using there
      have different : block ≠ found := fun equal => same (distinct other (equal ▸ kept))
      simpa [setOpen, freeFile, kfree, List.count_cons, different] using accounted.held other found kept
  · by_cases equal : block = found
    · subst equal
      simp [setOpen, freeFile, kfree, counted]
    · have before : ∀ other, fs.openFiles other ≠ some found := by
        intro other there
        have apart : other ≠ index := fun same => equal (Option.some.inj (here ▸ same ▸ there))
        exact missing other (by simpa [setOpen, freeFile, kfree, apart] using there)
      simpa [setOpen, freeFile, kfree, List.count_cons, equal] using accounted.returned found before

end Accounted

end

end Helios.Fs
