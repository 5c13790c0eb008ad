import Helios.Fs.Calls

namespace Helios.Fs

open Helios.Data Helios.Strings FileSystem

/-! The mount list as a map keyed by mountpoint. -/

/-- A state with the mountpoints that were mounted and have not been unmounted. -/
structure Ledger (ι : Type) where
  fs : FileSystem ι
  held : Finset CString

section

variable {ι : Type}

def record (held : Finset CString) (code : Int) : Event ι → Finset CString
  | .mount _ mountpoint _ _ => if code = 0 then insert mountpoint held else held
  | .umount mountpoint => if code = 0 then held.erase mountpoint else held
  | _ => held

/-- The mountpoint fits its field, or the call has no block to store it in. -/
def Fits : Event ι → Prop
  | .mount _ mountpoint _ granted => mountpoint.val.length ≤ 255 ∨ granted = none
  | _ => True

variable [DecidableEq ι] [Fintype ι]

namespace Ledger

def step (ledger : Ledger ι) (event : Event ι) : Option (Ledger ι) :=
  (handle ledger.fs event).map fun (next, code) => ⟨next, record ledger.held code event⟩

/-- A `mount` that succeeds uses a mountpoint that is not mounted, and `umount` undoes it. -/
def Lawful (ledger : Ledger ι) (device mountpoint fstype : CString) (granted : Option ι) : Prop :=
  ∃ next code, mount ledger.fs device mountpoint fstype granted = some (next, code) ∧
    (code = 0 → mountpoint ∉ ledger.held ∧
      ∃ restored, umount next mountpoint = some (restored, 0) ∧
        restored.mountedFsList = ledger.fs.mountedFsList ∧ restored.live = ledger.fs.live ∧
        ∀ block ∈ ledger.fs.live, restored.mounted block = ledger.fs.mounted block)

end Ledger

omit [Fintype ι] in
structure Keyed (ledger : Ledger ι) (list : List ι) : Prop where
  sound : Sound ledger.fs list
  distinct : (list.map fun block => (ledger.fs.mounted block).mountpoint).Nodup
  short : ∀ block ∈ list, (ledger.fs.mounted block).mountpoint.val.length ≤ 255
  held : ∀ mountpoint ∈ ledger.held, ∃ block ∈ list,
    (ledger.fs.mounted block).mountpoint = mountpoint

variable {fs : FileSystem ι} {ledger : Ledger ι} {list : List ι} {block : ι}
variable {device mountpoint fstype : CString} {granted : Option ι}

omit [DecidableEq ι] [Fintype ι] in
theorem mountedAt_iff :
    mountedAt fs mountpoint block = true ↔ (fs.mounted block).mountpoint = mountpoint := by
  simp [mountedAt, strcmp_eq_zero (fs.mounted block).mountpoint.property mountpoint.property,
    Subtype.ext_iff]

omit [DecidableEq ι] [Fintype ι] in
theorem mountedAt_false :
    mountedAt fs mountpoint block = false ↔ (fs.mounted block).mountpoint ≠ mountpoint := by
  rw [ne_eq, ← mountedAt_iff, Bool.not_eq_true]

theorem strncpy_short (short : mountpoint.val.length ≤ 255) : strncpy mountpoint 255 = mountpoint :=
  Subtype.ext (List.take_of_length_le short)

theorem strncpy_length : (strncpy mountpoint 255).val.length ≤ 255 := by
  simp [strncpy]

omit [Fintype ι] in
theorem addMount_short (sound : Sound fs list) (fresh : block ∉ fs.live)
    (short : ∀ block ∈ list, (fs.mounted block).mountpoint.val.length ≤ 255) :
    ∀ other ∈ block :: list,
      ((addMount fs block device mountpoint).mounted other).mountpoint.val.length ≤ 255 := by
  intro other member
  rcases List.mem_cons.mp member with same | earlier
  · rw [same, addMount_self]
    exact strncpy_length
  · have apart : other ≠ block := fun same => fresh (same ▸ sound.mounts other earlier)
    rw [addMount_other apart]
    exact short other earlier

omit [DecidableEq ι] [Fintype ι] in
theorem long_missing (short : ∀ block ∈ list, (fs.mounted block).mountpoint.val.length ≤ 255)
    (long : 255 < mountpoint.val.length) : ∀ block ∈ list, mountedAt fs mountpoint block = false := by
  intro block member
  rw [mountedAt_false]
  intro same
  have fits := short block member
  rw [same] at fits
  omega

/-- A mountpoint that does not fit is mounted under another name. -/
theorem mount_long (sound : Sound fs list) (fresh : block ∉ fs.live)
    (short : ∀ block ∈ list, (fs.mounted block).mountpoint.val.length ≤ 255)
    (long : 255 < mountpoint.val.length) :
    mount fs device mountpoint fstype (some block) = some (addMount fs block device mountpoint, 0) ∧
      umount (addMount fs block device mountpoint) mountpoint =
        some (addMount fs block device mountpoint, -1) :=
  ⟨mount_free sound (long_missing short long), umount_missing (sound.addMount fresh)
    (long_missing (addMount_short sound fresh short) long)⟩

namespace Keyed

omit [Fintype ι] in
theorem mounted (keyed : Keyed ledger list) (fresh : block ∉ ledger.fs.live)
    (fits : mountpoint.val.length ≤ 255)
    (missing : ∀ block ∈ list, (ledger.fs.mounted block).mountpoint ≠ mountpoint) :
    Keyed ⟨addMount ledger.fs block device mountpoint, insert mountpoint ledger.held⟩
      (block :: list) := by
  have apart : ∀ other ∈ list, other ≠ block := fun other member same =>
    fresh (same ▸ keyed.sound.mounts other member)
  refine ⟨keyed.sound.addMount fresh, ?_, ?_, ?_⟩
  · have kept : list.map (fun other =>
        ((addMount ledger.fs block device mountpoint).mounted other).mountpoint) =
        list.map fun other => (ledger.fs.mounted other).mountpoint :=
      List.map_congr_left fun other member => by rw [addMount_other (apart other member)]
    rw [List.map_cons, List.nodup_cons, kept, addMount_self, strncpy_short fits]
    exact ⟨by simpa using missing, keyed.distinct⟩
  · exact addMount_short keyed.sound fresh keyed.short
  · intro held member
    rcases Finset.mem_insert.mp member with same | earlier
    · exact ⟨block, by simp, by rw [addMount_self, same, strncpy_short fits]⟩
    · obtain ⟨other, inside, here⟩ := keyed.held held earlier
      exact ⟨other, by simp [inside], by rw [addMount_other (apart other inside), here]⟩

omit [Fintype ι] in
theorem unmounted {front back : List ι} (keyed : Keyed ledger (front ++ block :: back)) :
    Keyed ⟨unlinkMount ledger.fs front.getLast? block,
      ledger.held.erase (ledger.fs.mounted block).mountpoint⟩ (front ++ back) := by
  have sublist : (front ++ back).Sublist (front ++ block :: back) := by simp
  refine ⟨keyed.sound.unlinked, ?_, ?_, ?_⟩
  · simp only [mountpoint_unlinkMount]
    exact keyed.distinct.sublist (sublist.map _)
  · intro other member
    rw [mountpoint_unlinkMount]
    exact keyed.short other (sublist.subset member)
  · intro held member
    obtain ⟨different, member⟩ := Finset.mem_erase.mp member
    obtain ⟨other, inside, here⟩ := keyed.held held member
    refine ⟨other, ?_, by rw [mountpoint_unlinkMount, here]⟩
    have apart : other ≠ block := fun same => different (by rw [← here, same])
    simpa [apart] using inside

theorem mount_refused (keyed : Keyed ledger list) (member : block ∈ list)
    (here : (ledger.fs.mounted block).mountpoint = mountpoint) :
    mount ledger.fs device mountpoint fstype granted = some (ledger.fs, -1) :=
  mount_taken keyed.sound member (mountedAt_iff.mpr here)

omit [DecidableEq ι] [Fintype ι] in
/-- A member at the mountpoint, and where it is on the list. -/
theorem cases (ledger : Ledger ι) (list : List ι) (mountpoint : CString) :
    (∀ block ∈ list, (ledger.fs.mounted block).mountpoint ≠ mountpoint) ∨
      ∃ front block back, list = front ++ block :: back ∧
        (ledger.fs.mounted block).mountpoint = mountpoint ∧
        ∀ other ∈ front, (ledger.fs.mounted other).mountpoint ≠ mountpoint := by
  simpa only [mountedAt_false, mountedAt_iff] using mountedAt_cases ledger.fs mountpoint list

omit [DecidableEq ι] [Fintype ι] in
theorem record_refused {held : Finset CString} {event : Event ι} : record held (-1) event = held := by
  cases event with
  | mount device mountpoint fstype granted => rfl
  | umount mountpoint => rfl
  | openFile path flags mode granted => rfl
  | closeFile fd => rfl

theorem step {event : Event ι} (keyed : Keyed ledger list) (admissible : Admissible ledger.fs event)
    (fits : Fits event) : ∃ next after, ledger.step event = some next ∧ Keyed next after := by
  obtain ⟨next, code, after, returned, effect⟩ := keyed.sound.effect event
  refine ⟨⟨next, record ledger.held code event⟩, after, by rw [Ledger.step, returned]; rfl, ?_⟩
  have sound := keyed.sound.change (effect.change admissible)
  cases effect with
  | refused =>
      rw [record_refused]
      exact keyed
  | mounted missing =>
      exact keyed.mounted (admissible _ rfl) (fits.resolve_right (Option.some_ne_none _))
        fun block member => mountedAt_false.mp (missing block member)
  | unmounted member here =>
      subst member
      rw [record, if_pos rfl, ← mountedAt_iff.mp here]
      exact keyed.unmounted
  | opened free => exact ⟨sound, keyed.distinct, keyed.short, keyed.held⟩
  | rejected full => exact ⟨sound, keyed.distinct, keyed.short, keyed.held⟩
  | closed here => exact ⟨sound, keyed.distinct, keyed.short, keyed.held⟩

omit [Fintype ι] in
theorem booted (booted : Booted fs) : ∃ list, Keyed ⟨fs, ∅⟩ list := by
  obtain ⟨list, sound, _, rooted⟩ := booted.ready
  refine ⟨list, sound, ?_, ?_, by simp⟩
  · cases rooted with
    | inl empty => simp [empty]
    | inr root =>
        obtain ⟨block, only, _⟩ := root
        simp [only]
  · cases rooted with
    | inl empty => simp [empty]
    | inr root =>
        obtain ⟨block, only, here⟩ := root
        simp [only, here, rootName]

/-- A mountpoint that fits is mounted once, and unmounted again. -/
theorem lawful_of_fits (keyed : Keyed ledger list) (fresh : Fresh ledger.fs granted)
    (fits : mountpoint.val.length ≤ 255 ∨ granted = none) :
    ledger.Lawful device mountpoint fstype granted := by
  cases cases ledger list mountpoint with
  | inr taken =>
      obtain ⟨front, block, back, shape, here, _⟩ := taken
      exact ⟨_, _, keyed.mount_refused (by simp [shape]) here, by simp⟩
  | inl missing =>
      have free := @mount_free _ _ ledger.fs list _ mountpoint device fstype granted keyed.sound
        fun block member => mountedAt_false.mpr (missing block member)
      cases granted with
      | none => exact ⟨_, _, free, by simp⟩
      | some block =>
          have outside := fresh block rfl
          have short := fits.resolve_right (Option.some_ne_none block)
          refine ⟨_, _, free, fun _ => ⟨fun member => ?_, ?_⟩⟩
          · obtain ⟨other, inside, here⟩ := keyed.held mountpoint member
            exact missing other inside here
          · have sound : Sound (addMount ledger.fs block device mountpoint) ([] ++ block :: list) :=
              keyed.sound.addMount outside
            have first : mountedAt (addMount ledger.fs block device mountpoint) mountpoint block = true := by
              rw [mountedAt_iff, addMount_self, strncpy_short short]
            refine ⟨_, umount_found sound first (by simp), ?_, ?_, ?_⟩
            · simp [unlinkMount, kfree_same, link, addMount_self]
            · ext other
              rw [unlinkMount_live, addMount_live, addMount_self]
              constructor
              · rintro ⟨same | live, _, different⟩
                · exact absurd same.symm different
                · exact live
              · intro live
                exact ⟨.inr live, by simp, fun same => outside (same ▸ live)⟩
            · intro other live
              have different : other ≠ block := fun same => outside (same ▸ live)
              simp only [List.getLast?_nil, unlinkMount, kfree_same]
              exact addMount_other different

theorem lawful_iff (keyed : Keyed ledger list) (fresh : Fresh ledger.fs granted) :
    ledger.Lawful device mountpoint fstype granted ↔
      mountpoint.val.length ≤ 255 ∨ granted = none := by
  refine ⟨fun lawful => ?_, keyed.lawful_of_fits fresh⟩
  by_contra misfit
  rw [not_or, not_le] at misfit
  cases granted with
  | none => exact misfit.2 rfl
  | some block =>
      obtain ⟨mounted, unmounted⟩ := @mount_long _ _ _ ledger.fs list block device mountpoint fstype
        keyed.sound (fresh block rfl) keyed.short misfit.1
      obtain ⟨next, code, returned, undone⟩ := lawful
      rw [mounted] at returned
      cases returned
      obtain ⟨_, restored, again, _⟩ := undone rfl
      rw [unmounted] at again
      cases again

end Keyed

end

/-- After a run in which every mountpoint fits its field, the list is keyed by
mountpoint; and the next `mount` keeps to its contract if and only if its
mountpoint fits or it has no block. -/
theorem mount_table_iff {ι : Type} [DecidableEq ι] [Fintype ι] (fs : FileSystem ι)
    (booted : Booted fs) (events : List (Event ι))
    (admissible : Along Ledger.step (fun ledger event => Admissible ledger.fs event) ⟨fs, ∅⟩ events)
    (fits : ∀ event ∈ events, Fits event) :
    ∃ after list, run Ledger.step ⟨fs, ∅⟩ events = some after ∧
      Chain after.fs.link after.fs.mountedFsList list ∧
      (list.map fun block => (after.fs.mounted block).mountpoint).Nodup ∧
      ∀ device mountpoint fstype granted, Fresh after.fs granted →
        (after.Lawful device mountpoint fstype granted ↔
          mountpoint.val.length ≤ 255 ∨ granted = none) := by
  have both := admissible.and (Along.of_forall fun event member _ => fits event member)
  obtain ⟨after, reached, list, keyed⟩ := run_total (fun ledger => ∃ list, Keyed ledger list) both
    (Keyed.booted booted) fun ledger event ready allowed => by
      obtain ⟨list, keyed⟩ := ready
      obtain ⟨next, after, taken, kept⟩ := keyed.step allowed.1 allowed.2
      exact ⟨next, taken, after, kept⟩
  exact ⟨after, list, reached, keyed.sound.chain, keyed.distinct,
    fun device mountpoint fstype granted fresh => keyed.lawful_iff fresh⟩

/-- A second file system at the root is refused. -/
theorem mount_table_iff_root :
    ∃ after, run Ledger.step ⟨initFs ⟨fun _ => ⟨ramName, rootName, none, none⟩, fun _ => {}, none,
        fun _ => none, ∅, [], []⟩ (some 0) (some 1) (some 2) (some 3) (some 4), ∅⟩
        [.mount ramName rootName ramName (some 5)] = some (after : Ledger (Fin 7)) ∧
      after.Lawful ramName ramName ramName (some 6) := by
  have booted : Booted (initFs ⟨fun _ => ⟨ramName, rootName, none, none⟩, fun _ => {}, none,
      fun _ => none, ∅, [], []⟩ (some 0) (some 1) (some 2) (some 3) (some 4) :
      FileSystem (Fin 7)) := .init rfl ⟨rfl, rfl⟩ (by simp [FreshAnswers])
  obtain ⟨after, list, reached, _, _, next⟩ := mount_table_iff _ booted
    [.mount ramName rootName ramName (some 5)]
    ⟨fun block same => by
      cases same
      decide, fun _ _ => trivial⟩
    (by simp [Fits, rootName])
  refine ⟨after, reached, (next ramName ramName ramName (some 6) ?_).mpr (.inl (by decide))⟩
  intro block same
  cases same
  cases reached
  decide

/-- A mountpoint of 256 bytes is mounted twice, under the name of its first 255
bytes, and is not found when it is unmounted. -/
theorem long_mountpoint_twice :
    ∃ fs next twice : FileSystem (Fin 7), Booted fs ∧
      ∃ mountpoint : CString, mountpoint.val = List.replicate 256 97 ∧
      mount fs ramName mountpoint ramName (some 5) = some (next, 0) ∧
      umount next mountpoint = some (next, -1) ∧
      mount next ramName mountpoint ramName (some 6) = some (twice, 0) ∧
      twice.mountedFsList = some 6 ∧ twice.link 6 = some 5 ∧
      (twice.mounted 6).mountpoint = (twice.mounted 5).mountpoint := by
  have booted : Booted (initFs ⟨fun _ => ⟨ramName, rootName, none, none⟩, fun _ => {}, none,
      fun _ => none, ∅, [], []⟩ (some 0) (some 1) (some 2) (some 3) (some 4) :
      FileSystem (Fin 7)) := .init rfl ⟨rfl, rfl⟩ (by simp [FreshAnswers])
  obtain ⟨list, keyed⟩ := Keyed.booted booted
  obtain ⟨mountpoint, text⟩ : ∃ mountpoint : CString, mountpoint.val = List.replicate 256 97 :=
    ⟨⟨List.replicate 256 97, fun member =>
      absurd (List.eq_of_mem_replicate member) (by decide)⟩, rfl⟩
  have long : 255 < mountpoint.val.length := by rw [text, List.length_replicate]; decide
  obtain ⟨first, lost⟩ := @mount_long _ _ _ _ list 5 ramName mountpoint ramName keyed.sound
    (by decide) keyed.short long
  have after := @Sound.addMount _ _ _ list 5 ramName mountpoint keyed.sound (by decide)
  have short := @addMount_short _ _ _ list 5 ramName mountpoint keyed.sound (by decide) keyed.short
  obtain ⟨second, _⟩ := @mount_long _ _ _ _ _ 6 ramName mountpoint ramName after
    (by rw [addMount_live]; decide) short long
  exact ⟨_, _, _, booted, mountpoint, text, first, lost, second, rfl, rfl, rfl⟩

end Helios.Fs
