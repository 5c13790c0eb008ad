import Mathlib.Data.List.Infix
import Helios.Fs.Files
import Helios.Fs.Mounts

namespace Helios.Fs

open Helios.Data Helios.Strings FileSystem

/-! Which file system `open` looks a path up in: the first of the mount list
whose mountpoint is a prefix of the path as a string, the last one mounted
being the first of the list. -/

section

variable {ι : Type}

/-- The path is at the mountpoint or below it. -/
def Covers (mountpoint path : List UInt8) : Prop :=
  mountpoint = path ∨ mountpoint ++ [47] <+: path ∨ mountpoint = [47] ∧ [47] <+: path

/-- The mountpoint of the set that covers the path and is the longest to do so. -/
structure Longest (mountpoints : Set CString) (path mountpoint : CString) : Prop where
  member : mountpoint ∈ mountpoints
  covers : Covers mountpoint.val path.val
  longest : ∀ other ∈ mountpoints, Covers other.val path.val →
    other.val.length ≤ mountpoint.val.length

/-- The longest mountpoint that covers the path, or the root where none does. -/
def Resolution (mountpoints : Set CString) (path : CString) (resolved : Option CString) : Prop :=
  (∃ mountpoint, resolved = some mountpoint ∧ Longest mountpoints path mountpoint) ∨
    (∀ other ∈ mountpoints, ¬Covers other.val path.val) ∧
      (rootName ∈ mountpoints → resolved = some rootName)

instance (mountpoint path : List UInt8) : Decidable (Covers mountpoint path) :=
  inferInstanceAs (Decidable (_ ∨ _ ∨ _))

theorem Covers.isPrefix {mountpoint path : List UInt8} (covers : Covers mountpoint path) :
    mountpoint <+: path := by
  rcases covers with same | below | ⟨root, absolute⟩
  · rw [same]
  · exact (List.prefix_append mountpoint [47]).trans below
  · rwa [root]

theorem Longest.unique {mountpoints : Set CString} {path one other : CString}
    (first : Longest mountpoints path one) (second : Longest mountpoints path other) :
    one = other := by
  have shorter := second.longest one first.member first.covers
  have longer := first.longest other second.member second.covers
  have inside := List.prefix_of_prefix_length_le first.covers.isPrefix second.covers.isPrefix shorter
  exact Subtype.ext (inside.eq_of_length (by omega))

/-- What is right depends on the set of mountpoints alone. -/
theorem Resolution.unique {mountpoints : Set CString} {path : CString} {one other : Option CString}
    (rooted : rootName ∈ mountpoints) (first : Resolution mountpoints path one)
    (second : Resolution mountpoints path other) : one = other := by
  rcases first with ⟨mountpoint, here, longest⟩ | ⟨uncovered, root⟩
  · rcases second with ⟨also, there, again⟩ | ⟨uncovered, _⟩
    · rw [here, there, longest.unique again]
    · exact absurd longest.covers (uncovered mountpoint longest.member)
  · rcases second with ⟨also, there, again⟩ | ⟨_, alsoRoot⟩
    · exact absurd again.covers (uncovered also again.member)
    · rw [root rooted, alsoRoot rooted]

def mountpoints (fs : FileSystem ι) (list : List ι) : Set CString :=
  {mountpoint | ∃ block ∈ list, (fs.mounted block).mountpoint = mountpoint}

/-- The mountpoint is a prefix of the path as a string. -/
def Begins (fs : FileSystem ι) (path : CString) (block : ι) : Prop :=
  (fs.mounted block).mountpoint.val <+: path.val

instance (fs : FileSystem ι) (path : CString) : DecidablePred (Begins fs path) := fun block =>
  inferInstanceAs (Decidable ((fs.mounted block).mountpoint.val <+: path.val))

/-- No file system mounted after the right one stands in front of it. -/
def Unshadowed (fs : FileSystem ι) (list : List ι) (path : CString) : Prop :=
  (∃ front chosen back, list = front ++ chosen :: back ∧
    Longest (mountpoints fs list) path (fs.mounted chosen).mountpoint ∧
    ∀ other ∈ front, ¬Begins fs path other) ∨
  (∀ block ∈ list, ¬Covers (fs.mounted block).mountpoint.val path.val) ∧
    (rootName ∈ mountpoints fs list → (∀ block ∈ list, ¬Begins fs path block) ∧
      ∃ root back, list = root :: back ∧ (fs.mounted root).mountpoint = rootName)

/-- The search of `open`, with the file system that it falls back on. -/
def lookup [Fintype ι] (fs : FileSystem ι) (path : CString) : Option (Option ι) :=
  (findMount fs path).map fun found => found.or fs.mountedFsList

variable {fs : FileSystem ι} {list : List ι} {path : CString}

theorem lookup_eq [DecidableEq ι] [Fintype ι] (sound : Sound fs list) :
    lookup fs path = some ((list.find? fun block => Begins fs path block).or list.head?) := by
  have test : (fun block => decide (strncmp path.val (fs.mounted block).mountpoint.val
      (fs.mounted block).mountpoint.val.length = 0)) = fun block => decide (Begins fs path block) := by
    funext block
    rw [decide_eq_decide]
    exact strncmp_length_eq_zero (fs.mounted block).mountpoint.property
  rw [lookup, findMount, test, search_eq sound.chain sound.length_lt, sound.chain.head_eq]
  rfl

theorem not_begins_root (member : rootName ∈ mountpoints fs list)
    (uncovered : ∀ block ∈ list, ¬Covers (fs.mounted block).mountpoint.val path.val) {block : ι}
    (begins : Begins fs path block) : (fs.mounted block).mountpoint ≠ rootName := by
  intro same
  obtain ⟨root, inside, here⟩ := member
  rw [Begins, same] at begins
  exact uncovered root inside (.inr (.inr ⟨congrArg Subtype.val here, begins⟩))

/-- The selected file system is the right one where it is not shadowed, and
nowhere else. -/
theorem resolution_iff :
    Resolution (mountpoints fs list) path
        (((list.find? fun block => Begins fs path block).or list.head?).map fun block =>
          (fs.mounted block).mountpoint) ↔ Unshadowed fs list path := by
  have everywhere : (∀ other ∈ mountpoints fs list, ¬Covers other.val path.val) ↔
      ∀ block ∈ list, ¬Covers (fs.mounted block).mountpoint.val path.val := by
    simp [mountpoints]
  constructor
  · rintro (⟨mountpoint, here, longest⟩ | ⟨uncovered, root⟩)
    · obtain ⟨block, inside, same⟩ := longest.member
      have begins : Begins fs path block := by
        rw [Begins, same]
        exact longest.covers.isPrefix
      cases found : list.find? fun block => Begins fs path block with
      | none => exact absurd begins (by simpa using List.find?_eq_none.mp found block inside)
      | some chosen =>
          obtain ⟨_, front, back, shape, earlier⟩ := List.find?_eq_some_iff_append.mp found
          rw [found, Option.some_or, Option.map_some, Option.some.injEq] at here
          exact .inl ⟨front, chosen, back, shape, here ▸ longest, fun other member => by
            simpa using earlier other member⟩
    · refine .inr ⟨everywhere.mp uncovered, fun member => ?_⟩
      have selected := root member
      cases found : list.find? fun block => Begins fs path block with
      | some chosen =>
          rw [found, Option.some_or, Option.map_some, Option.some.injEq] at selected
          have begins : Begins fs path chosen := by simpa using List.find?_some found
          exact absurd selected (not_begins_root member (everywhere.mp uncovered) begins)
      | none =>
          rw [found, Option.none_or] at selected
          refine ⟨fun block inside => by simpa using List.find?_eq_none.mp found block inside, ?_⟩
          cases list with
          | nil => cases selected
          | cons first back => exact ⟨first, back, rfl, Option.some.inj selected⟩
  · rintro (⟨front, chosen, back, shape, longest, earlier⟩ | ⟨uncovered, root⟩)
    · have found : list.find? (fun block => Begins fs path block) = some chosen :=
        List.find?_eq_some_iff_append.mpr ⟨decide_eq_true longest.covers.isPrefix, front, back, shape,
          fun other member => by simpa using earlier other member⟩
      exact .inl ⟨(fs.mounted chosen).mountpoint, by rw [found]; rfl, longest⟩
    · refine .inr ⟨everywhere.mpr uncovered, fun member => ?_⟩
      obtain ⟨unbegun, first, back, shape, here⟩ := root member
      have missing : list.find? (fun block => Begins fs path block) = none :=
        List.find?_eq_none.mpr fun block inside => by simpa using unbegun block inside
      rw [missing, shape, Option.none_or, List.head?_cons, Option.map_some, here]

/-- The root file system is the last of the list, and no other is mounted at its
mountpoint. -/
def Rooted (fs : FileSystem ι) (list : List ι) : Prop :=
  ∃ before root, list = before ++ [root] ∧ (fs.mounted root).mountpoint = rootName ∧
    ∀ other ∈ before, (fs.mounted other).mountpoint ≠ rootName

def KeepsRoot : Event ι → Prop
  | .umount mountpoint => mountpoint ≠ rootName
  | _ => True

namespace Rooted

theorem congr {next : FileSystem ι} (rooted : Rooted fs list)
    (same : ∀ block ∈ list, (next.mounted block).mountpoint = (fs.mounted block).mountpoint) :
    Rooted next list := by
  obtain ⟨before, root, shape, here, others⟩ := rooted
  refine ⟨before, root, shape, ?_, fun other member => ?_⟩
  · rw [same root (by simp [shape])]
    exact here
  · rw [same other (by simp [shape, member])]
    exact others other member

theorem cons {block : ι} (rooted : Rooted fs list) (other : (fs.mounted block).mountpoint ≠ rootName) :
    Rooted fs (block :: list) := by
  obtain ⟨before, root, shape, here, others⟩ := rooted
  refine ⟨block :: before, root, by rw [shape, List.cons_append], here, ?_⟩
  exact List.forall_mem_cons.mpr ⟨other, others⟩

theorem erase {front back : List ι} {block : ι} (rooted : Rooted fs (front ++ block :: back))
    (other : (fs.mounted block).mountpoint ≠ rootName) : Rooted fs (front ++ back) := by
  obtain ⟨before, root, shape, here, others⟩ := rooted
  rcases List.eq_nil_or_concat back with empty | ⟨rest, last, ending⟩
  · subst empty
    have same : block = root := by simpa using congrArg List.getLast? shape
    exact absurd here (same ▸ other)
  · rw [List.concat_eq_append] at ending
    subst ending
    have split : (front ++ block :: rest) ++ [last] = before ++ [root] := by simpa using shape
    obtain ⟨same, ended⟩ := List.append_inj' split rfl
    have lastRoot : last = root := List.singleton_inj.mp ended
    refine ⟨front ++ rest, root, by rw [lastRoot, List.append_assoc], here, fun other member => ?_⟩
    exact others other (same ▸ by simpa using (List.mem_append.mp member).imp_right Or.inr)

theorem member (rooted : Rooted fs list) : rootName ∈ mountpoints fs list := by
  obtain ⟨before, root, shape, here, _⟩ := rooted
  exact ⟨root, by simp [shape], here⟩

variable [DecidableEq ι]

theorem mounted {block : ι} {device mountpoint : CString} (rooted : Rooted fs list)
    (sound : Sound fs list) (fresh : block ∉ fs.live) (free : mountpoint ≠ rootName) :
    Rooted (addMount fs block device mountpoint) (block :: list) := by
  have apart : ∀ other ∈ list, other ≠ block := fun other member same =>
    fresh (same ▸ sound.mounts other member)
  refine (rooted.congr fun other member => by rw [addMount_other (apart other member)]).cons ?_
  rw [addMount_self]
  intro cut
  have text : mountpoint.val.take 255 = [47] := congrArg Subtype.val cut
  have length : (mountpoint.val.take 255).length = 1 := congrArg List.length text
  rw [List.length_take] at length
  rw [List.take_of_length_le (by omega)] at text
  exact free (Subtype.ext text)

theorem unmounted {front back : List ι} {block : ι} (rooted : Rooted fs (front ++ block :: back))
    (other : (fs.mounted block).mountpoint ≠ rootName) :
    Rooted (unlinkMount fs front.getLast? block) (front ++ back) :=
  (rooted.erase other).congr fun _ _ => mountpoint_unlinkMount

theorem booted (booted : Booted fs) (made : fs.mountedFsList ≠ none) :
    ∃ list, Sound fs list ∧ Rooted fs list := by
  obtain ⟨list, sound, _, rooted⟩ := booted.ready
  refine ⟨list, sound, ?_⟩
  rcases rooted with empty | ⟨root, only, here⟩
  · rw [sound.chain.head_eq, empty] at made
    exact absurd rfl made
  · exact ⟨[], root, only, here, by simp⟩

theorem step [Fintype ι] {event : Event ι} (rooted : Rooted fs list) (sound : Sound fs list)
    (admissible : Admissible fs event) (keeps : KeepsRoot event) :
    ∃ next after, Fs.step fs event = some next ∧ Sound next after ∧ Rooted next after := by
  obtain ⟨next, code, after, returned, effect⟩ := sound.effect event
  refine ⟨next, after, congrArg (Option.map Prod.fst) returned,
    sound.change (effect.change admissible), ?_⟩
  cases effect with
  | refused => exact rooted
  | mounted missing =>
      refine rooted.mounted sound (admissible _ rfl) fun same => ?_
      obtain ⟨root, inside, here⟩ := rooted.member
      exact mountedAt_false.mp (missing root inside) (here.trans same.symm)
  | unmounted member here =>
      subst member
      refine rooted.unmounted ?_
      rw [mountedAt_iff.mp here]
      exact keeps
  | opened free => exact rooted
  | rejected full => exact rooted
  | closed here => exact rooted

end Rooted

end

/-- In every state that is reached the search of `open` finds the right file
system if and only if it is not shadowed; the right mountpoint is the same
whatever the order in which the file systems were mounted; and the root stays
the last of the list until it is unmounted. -/
theorem mount_resolution_iff {ι : Type} [DecidableEq ι] [Fintype ι] (fs : FileSystem ι)
    (booted : Booted fs) (events : List (Event ι)) (admissible : Along step Admissible fs events) :
    ∃ after list, run step fs events = some after ∧
      Chain after.link after.mountedFsList list ∧
      (fs.mountedFsList ≠ none → (∀ event ∈ events, KeepsRoot event) → Rooted after list) ∧
      (∀ path, ∃ selected, lookup after path = some selected ∧
        (Resolution (mountpoints after list) path
          (selected.map fun block => (after.mounted block).mountpoint) ↔
          Unshadowed after list path)) ∧
      ∀ start moves other items, Booted start → Along step Admissible start moves →
        run step start moves = some (other : FileSystem ι) →
        Chain other.link other.mountedFsList items →
        mountpoints other items = mountpoints after list → rootName ∈ mountpoints after list →
        ∀ path, Unshadowed after list path → Unshadowed other items path →
          ∃ selected also, lookup after path = some selected ∧ lookup other path = some also ∧
            (selected.map fun block => (after.mounted block).mountpoint) =
              also.map fun block => (other.mounted block).mountpoint := by
  obtain ⟨after, reached, list, sound, _⟩ := booted.run_ready admissible
  refine ⟨after, list, reached, sound.chain, fun made keeps => ?_,
    fun path => ⟨_, lookup_eq sound, resolution_iff⟩, ?_⟩
  · obtain ⟨initial, start, rooted⟩ := Rooted.booted booted made
    have both := admissible.and (Along.of_forall fun event member _ => keeps event member)
    obtain ⟨last, ending, items, ordered, kept⟩ := run_total
      (fun fs => ∃ list, Sound fs list ∧ Rooted fs list) both ⟨initial, start, rooted⟩
      fun state event ready allowed => by
        obtain ⟨list, sound, rooted⟩ := ready
        obtain ⟨next, after, taken, result⟩ := rooted.step sound allowed.1 allowed.2
        exact ⟨next, taken, after, result⟩
    have same : last = after := Option.some.inj (ending.symm.trans reached)
    subst same
    rw [sound.chain.unique ordered.chain]
    exact kept
  · intro start moves other items alsoBooted alsoAdmissible alsoReached chain same rooted path
      unshadowed alsoUnshadowed
    obtain ⟨last, ending, ordered, alsoSound, _⟩ := alsoBooted.run_ready alsoAdmissible
    have equal : last = other := Option.some.inj (ending.symm.trans alsoReached)
    subst equal
    have listed : ordered = items := alsoSound.chain.unique chain
    subst listed
    refine ⟨_, _, lookup_eq sound, lookup_eq alsoSound, ?_⟩
    have one := resolution_iff.mpr unshadowed
    have two := resolution_iff.mpr alsoUnshadowed
    rw [same] at two
    exact one.unique rooted two

/-- The bytes of `"/a"`, `"/a/b"`, `"/ab"` and `"x"`. -/
def outerName : CString := ⟨[47, 97], by decide⟩
def innerName : CString := ⟨[47, 97, 47, 98], by decide⟩
def siblingName : CString := ⟨[47, 97, 98], by decide⟩
def relativeName : CString := ⟨[120], by decide⟩

/-- A file system mounted inside another one that was mounted before it. -/
theorem mount_resolution_iff_nested :
    ∃ after : FileSystem (Fin 7), run step (initFs ⟨fun _ => ⟨ramName, rootName, none, none⟩,
        fun _ => {}, none, fun _ => none, ∅, [], []⟩ (some 0) (some 1) (some 2) (some 3) (some 4))
        [.mount ramName outerName ramName (some 5), .mount ramName innerName ramName (some 6)] =
          some after ∧
      ∃ selected, lookup after innerName = some selected ∧
        Resolution (mountpoints after [6, 5, 3]) innerName
          (selected.map fun block => (after.mounted block).mountpoint) := by
  have booted : Booted (initFs ⟨fun _ => ⟨ramName, rootName, none, none⟩, fun _ => {}, none,
      fun _ => none, ∅, [], []⟩ (some 0) (some 1) (some 2) (some 3) (some 4) :
      FileSystem (Fin 7)) := .init rfl ⟨rfl, rfl⟩ (by simp [FreshAnswers])
  obtain ⟨after, list, reached, chain, _, resolves, _⟩ := mount_resolution_iff _ booted
    [.mount ramName outerName ramName (some 5), .mount ramName innerName ramName (some 6)]
    ⟨fun block same => by
      cases same
      decide, fun next taken => ⟨fun block same => by
        cases taken
        cases same
        decide, fun _ _ => trivial⟩⟩
  refine ⟨after, reached, ?_⟩
  cases reached
  have listed : list = [6, 5, 3] := chain.unique ⟨rfl, rfl, rfl, rfl⟩
  subst listed
  obtain ⟨selected, found, right⟩ := resolves innerName
  refine ⟨selected, found, right.mpr (.inl ⟨[], 6, [5, 3], rfl, ⟨⟨6, by simp, rfl⟩, .inl rfl, ?_⟩, by simp⟩)⟩
  intro other member _
  obtain ⟨block, inside, same⟩ := member
  have which : block = 6 ∨ block = 5 ∨ block = 3 := by simpa using inside
  rw [← same]
  rcases which with rfl | rfl | rfl
  · decide
  · decide
  · decide

/-- The file system that contains another one is found in its place when it is
mounted later; it is found for a name that its own begins, and for a relative
path. -/
theorem mount_order_matters :
    ∃ fs after other : FileSystem (Fin 7), Booted fs ∧
      run step fs [.mount ramName outerName ramName (some 5),
        .mount ramName innerName ramName (some 6)] = some after ∧
      run step fs [.mount ramName innerName ramName (some 5),
        .mount ramName outerName ramName (some 6)] = some other ∧
      lookup after innerName = some (some 6) ∧ (after.mounted 6).mountpoint = innerName ∧
      Chain other.link other.mountedFsList [6, 5, 3] ∧ (other.mounted 6).mountpoint = outerName ∧
      ∀ path ∈ [innerName, siblingName, relativeName], lookup other path = some (some 6) ∧
        ¬Resolution (mountpoints other [6, 5, 3]) path (some outerName) := by
  have booted : Booted (initFs ⟨fun _ => ⟨ramName, rootName, none, none⟩, fun _ => {}, none,
      fun _ => none, ∅, [], []⟩ (some 0) (some 1) (some 2) (some 3) (some 4) :
      FileSystem (Fin 7)) := .init rfl ⟨rfl, rfl⟩ (by simp [FreshAnswers])
  refine ⟨_, _, _, booted, rfl, rfl, rfl, rfl, ⟨rfl, rfl, rfl, rfl⟩, rfl, ?_⟩
  intro path member
  have which : path = innerName ∨ path = siblingName ∨ path = relativeName := by
    simpa using member
  rcases which with rfl | rfl | rfl
  · refine ⟨rfl, ?_⟩
    rintro (⟨mountpoint, here, longest⟩ | ⟨uncovered, _⟩)
    · cases here
      have short : innerName.val.length ≤ outerName.val.length :=
        longest.longest innerName ⟨5, by simp, rfl⟩ (.inl rfl)
      exact absurd short (by decide)
    · exact uncovered rootName ⟨3, by simp, rfl⟩ (by decide)
  · refine ⟨rfl, ?_⟩
    rintro (⟨mountpoint, here, longest⟩ | ⟨uncovered, _⟩)
    · cases here
      exact absurd longest.covers (by decide)
    · exact uncovered rootName ⟨3, by simp, rfl⟩ (by decide)
  · refine ⟨rfl, ?_⟩
    rintro (⟨mountpoint, here, longest⟩ | ⟨_, root⟩)
    · cases here
      exact absurd longest.covers (by decide)
    · have same : outerName = rootName := Option.some.inj (root ⟨3, by simp, rfl⟩)
      exact absurd same (by decide)

end Helios.Fs
