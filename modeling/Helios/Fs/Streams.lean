import Helios.Fs.Files
import Helios.Syscall.Streams

namespace Helios.Fs

open Helios.Data Helios.Strings Helios.Syscall FileSystem

/-! Stream files: `read` and `write` of `fs.c` look at the inode of a file, and
hand the descriptor on to system calls that look at its number. -/

section

variable {ι : Type}

/-- `read`; an ordinary file has no bytes. -/
def read (behind : UInt8) (fs : FileSystem ι) (console : Console) (fd : Int) (buf count : Nat) :
    Port (Console × Int) :=
  if fd < 0 ∨ maxFiles ≤ fd then pure (console, -1)
  else
    match fs.openFiles fd.toNat with
    | none => pure (console, -1)
    | some file =>
        if (fs.file file).inode = 0 then sysRead behind console fd buf count
        else pure (console, 0)

/-- `write`. -/
def write (fs : FileSystem ι) (console : Console) (fd : Int) (buf count : Nat) : Console × Int :=
  if fd < 0 ∨ maxFiles ≤ fd then (console, -1)
  else
    match fs.openFiles fd.toNat with
    | none => (console, -1)
    | some file =>
        if (fs.file file).inode = 1 ∨ (fs.file file).inode = 2 then sysWrite console fd buf count
        else (console, 0)

/-- A stream is at a descriptor that the system calls take for it. -/
def Numbered (inode index : Nat) : Prop :=
  (inode = 0 → index = 0) ∧ (inode = 1 ∨ inode = 2 → index = 1 ∨ index = 2)

/-- The descriptor that the call returns is one that the system calls take for
the file. -/
def OpensNumbered (fs : FileSystem ι) : Event ι → Prop
  | .openFile path _ _ _ => ∀ index, freeIndex fs = some index → Numbered (inodeOf path) index
  | _ => True

def AllNumbered (fs : FileSystem ι) : Prop :=
  ∀ index block, fs.openFiles index = some block → Numbered (fs.file block).inode index

variable {behind : UInt8} {fs : FileSystem ι} {console : Console} {fd : Int} {buf count : Nat}
variable {block : ι}

theorem read_stream (opened : Open fs fd block) (input : (fs.file block).inode = 0) :
    read behind fs console fd buf count = sysRead behind console fd buf count := by
  obtain ⟨index, same, inside, entry⟩ := opened
  rw [read, if_neg (by omega), same, Int.toNat_natCast, entry]
  exact if_pos input

theorem write_stream (opened : Open fs fd block)
    (output : (fs.file block).inode = 1 ∨ (fs.file block).inode = 2) :
    write fs console fd buf count = sysWrite console fd buf count := by
  obtain ⟨index, same, inside, entry⟩ := opened
  rw [write, if_neg (by omega), same, Int.toNat_natCast, entry]
  exact if_pos output

namespace AllNumbered

theorem congr {next : FileSystem ι} (numbered : AllNumbered fs)
    (openFiles : next.openFiles = fs.openFiles) (file : next.file = fs.file) : AllNumbered next := by
  intro index block here
  rw [openFiles] at here
  rw [file]
  exact numbered index block here

variable [DecidableEq ι]

theorem opened {index : Nat} {file : File} (numbered : AllNumbered fs)
    (unopened : ∀ other, fs.openFiles other ≠ some block) (here : Numbered file.inode index) :
    AllNumbered ((fs.fillFile block file).setOpen index (some block)) := by
  intro other found entry
  by_cases same : other = index
  · subst same
    have new : block = found := by simpa [setOpen] using entry
    subst new
    simpa [setOpen, fillFile] using here
  · have kept : fs.openFiles other = some found := by
      simpa [setOpen, fillFile, grant, same] using entry
    have different : found ≠ block := fun equal => unopened other (equal ▸ kept)
    simpa [setOpen, fillFile, different] using numbered other found kept

theorem rejected {file : File} (numbered : AllNumbered fs)
    (unopened : ∀ other, fs.openFiles other ≠ some block) :
    AllNumbered ((fs.fillFile block file).freeFile block) := by
  intro index found entry
  have kept : fs.openFiles index = some found := entry
  have different : found ≠ block := fun equal => unopened index (equal ▸ kept)
  simpa [freeFile, fillFile, kfree, different] using numbered index found kept

theorem closed {index : Nat} (numbered : AllNumbered fs) :
    AllNumbered ((fs.freeFile block).setOpen index none) := by
  intro other found entry
  by_cases same : other = index
  · simp [setOpen, same] at entry
  · have kept : fs.openFiles other = some found := by
      simpa [setOpen, freeFile, kfree, same] using entry
    exact numbered other found kept

theorem initStream {list : List ι} {answer : Option ι} {rest : List (Option ι)} {index : Nat}
    (numbered : AllNumbered fs) (sound : Sound fs list)
    (fresh : FreshAnswers fs.live (answer :: rest)) : AllNumbered (Fs.initStream fs index answer) := by
  cases answer with
  | none => exact numbered
  | some block =>
      exact numbered.opened (fun other here => fresh.1 (sound.files other block here).1) ⟨id, id⟩

theorem initRoot {root sb : Option ι} (numbered : AllNumbered fs) :
    AllNumbered (Fs.initRoot fs root sb) := by
  cases root with
  | none => exact numbered
  | some block =>
      cases sb with
      | none => exact numbered
      | some sb => exact numbered

end AllNumbered

section

variable [DecidableEq ι]

theorem AllNumbered.booted (booted : Booted fs) : AllNumbered fs := by
  cases booted with
  | @init start stdin stdout stderr root sb unmounted unused fresh =>
      have sound : Sound { start with openFiles := fun _ => none } [] :=
        ⟨unmounted, by simp, by simp, by simp, by simp, by simp, by simp⟩
      have numbered : AllNumbered { start with openFiles := fun _ => none } := by simp [AllNumbered]
      obtain ⟨first, freshOut, free⟩ := @initStream_change _ _
        { start with openFiles := fun _ => none } [] stdin [stdout, stderr, root, sb] 0
        fresh (by decide) (by simp)
      obtain ⟨second, freshErr, _⟩ := @initStream_change _ _ _ [] stdout [stderr, root, sb] 1
        freshOut (by decide) free
      have input := @initStream _ _ _ _ _ _ 0 numbered sound fresh
      have output := @initStream _ _ _ _ _ _ 1 input (sound.change first) freshOut
      have error := @initStream _ _ _ _ _ _ 2 output ((sound.change first).change second) freshErr
      exact error.initRoot

variable [Fintype ι]

theorem AllNumbered.step {list : List ι} {event : Event ι} (numbered : AllNumbered fs)
    (sound : Sound fs list) (admissible : Admissible fs event) (opens : OpensNumbered fs event) :
    ∃ next after, Fs.step fs event = some next ∧ Sound next after ∧ AllNumbered next := by
  obtain ⟨next, code, after, returned, effect⟩ := sound.effect event
  refine ⟨next, after, congrArg (Option.map Prod.fst) returned,
    sound.change (effect.change admissible), ?_⟩
  have unopened : ∀ block, block ∉ fs.live → ∀ other, fs.openFiles other ≠ some block :=
    fun block fresh other here => fresh (sound.files other block here).1
  cases effect with
  | refused => exact numbered
  | mounted missing => exact numbered
  | unmounted member here => exact numbered.congr unlinkMount_files.1 unlinkMount_file
  | opened free => exact numbered.opened (unopened _ (admissible _ rfl)) (opens _ free)
  | rejected full => exact numbered.rejected (unopened _ (admissible _ rfl))
  | closed here => exact numbered.closed

end

/-- Writing through any descriptor of an output stream sends the bytes and
returns their number, and reading through any descriptor of the input stream
does what reading descriptor `0` does. -/
def StreamsWork (behind : UInt8) (fs : FileSystem ι) : Prop :=
  ∀ fd block, Open fs fd block →
    ((fs.file block).inode = 1 ∨ (fs.file block).inode = 2 → ∀ console buf count,
      count < 0x80000000 → Sent console buf count (write fs console fd buf count)) ∧
    ((fs.file block).inode = 0 → ∀ console buf count answers,
      (read behind fs console fd buf count answers).result =
        (sysRead behind console 0 buf count answers).result)

theorem AllNumbered.streamsWork (numbered : AllNumbered fs) : StreamsWork behind fs := by
  intro fd block opened
  have ⟨index, same, _, entry⟩ := opened
  obtain ⟨atZero, atOutput⟩ := numbered index block entry
  refine ⟨fun output console buf count short => ?_, fun input console buf count answers => ?_⟩
  · have place : fd = 1 ∨ fd = 2 := (atOutput output).imp (fun here => by omega) fun here => by omega
    rw [write_stream opened output]
    exact sysWrite_sent_iff.mpr ⟨place, short⟩
  · have place : fd = 0 := by rw [same, atZero input, Nat.cast_zero]
    rw [read_stream opened input]
    exact sysRead_result_iff.mpr place

end

/-- In every state that is reached, a stream file works through the descriptors
whose numbers the system calls take for it, and through no others; and these
are all of its descriptors after a run in which every `open` returned such a
number. -/
theorem stream_files_iff {ι : Type} [DecidableEq ι] [Fintype ι] (behind : UInt8)
    (fs : FileSystem ι) (booted : Booted fs) (events : List (Event ι))
    (admissible : Along step Admissible fs events) :
    ∃ after, run step fs events = some after ∧
      (∀ fd block, Open after fd block →
        (after.file block).inode = 1 ∨ (after.file block).inode = 2 → ∀ console buf count,
          (Sent console buf count (write after console fd buf count) ↔
            (fd = 1 ∨ fd = 2) ∧ count < 0x80000000)) ∧
      (∀ fd block, Open after fd block → (after.file block).inode = 0 →
        ∀ console buf count answers,
          ((read behind after console fd buf count answers).result =
            (sysRead behind console 0 buf count answers).result ↔ fd = 0)) ∧
      (Along step OpensNumbered fs events → StreamsWork behind after) := by
  obtain ⟨after, reached, _⟩ := booted.run_ready admissible
  refine ⟨after, reached, ?_, ?_, fun opens => ?_⟩
  · intro fd block opened output console buf count
    rw [write_stream opened output]
    exact sysWrite_sent_iff
  · intro fd block opened input console buf count answers
    rw [read_stream opened input]
    exact sysRead_result_iff
  · obtain ⟨list, sound, _, _⟩ := booted.ready
    obtain ⟨last, ending, _, _, numbered⟩ := run_total
      (fun fs => ∃ list, Sound fs list ∧ AllNumbered fs) (admissible.and opens)
      ⟨list, sound, .booted booted⟩ fun state event ready allowed => by
        obtain ⟨list, sound, numbered⟩ := ready
        obtain ⟨next, other, taken, kept⟩ := numbered.step sound allowed.1 allowed.2
        exact ⟨next, taken, other, kept⟩
    have same : last = after := Option.some.inj (ending.symm.trans reached)
    exact same ▸ numbered.streamsWork

/-- The standard input, closed and opened again. -/
theorem stream_files_iff_reopened :
    ∃ after, run step (initFs ⟨fun _ => ⟨ramName, rootName, none, none⟩, fun _ => {}, none,
        fun _ => none, ∅, [], []⟩ (some 0) (some 1) (some 2) (some 3) (some 4))
        [.closeFile 0, .openFile ⟨devTty, by decide⟩ 0 0 (some 5)] =
          some (after : FileSystem (Fin 6)) ∧ StreamsWork 0 after := by
  have booted : Booted (initFs ⟨fun _ => ⟨ramName, rootName, none, none⟩, fun _ => {}, none,
      fun _ => none, ∅, [], []⟩ (some 0) (some 1) (some 2) (some 3) (some 4) :
      FileSystem (Fin 6)) := .init rfl ⟨rfl, rfl⟩ (by simp [FreshAnswers])
  obtain ⟨after, reached, _, _, works⟩ := stream_files_iff 0 _ booted
    [.closeFile 0, .openFile ⟨devTty, by decide⟩ 0 0 (some 5)]
    ⟨trivial, fun next taken => ⟨fun block same => by
      cases taken
      cases same
      decide, fun _ _ => trivial⟩⟩
  refine ⟨after, reached, works ⟨trivial, fun next taken => ⟨fun index free => ?_, fun _ _ => trivial⟩⟩⟩
  cases taken
  have least := (freeIndex_eq_some.mp free).2
  have first : index = 0 := Nat.le_zero.mp (least ⟨by decide, rfl⟩)
  rw [first]
  exact ⟨fun _ => rfl, fun other => absurd other (by decide)⟩

set_option maxRecDepth 8192 in
/-- Opened again while the standard streams are open, the output stream writes
nothing and the input stream reads nothing. -/
theorem reopened_streams_fail :
    ∃ fs after : FileSystem (Fin 7), Booted fs ∧
      run step fs [.openFile ⟨devStdout, by decide⟩ 1 0 (some 5),
        .openFile ⟨devTty, by decide⟩ 0 0 (some 6)] = some after ∧
      Open after 3 5 ∧ (after.file 5).inode = 1 ∧ Open after 4 6 ∧ (after.file 6).inode = 0 ∧
      (∀ console, write after console 3 0 1 = (console, -1)) ∧
      (∀ behind console answers,
        read behind after console 4 0 1 answers = ⟨[], some ((console, -1), answers)⟩) ∧
      ∀ behind, ¬StreamsWork behind after := by
  have booted : Booted (initFs ⟨fun _ => ⟨ramName, rootName, none, none⟩, fun _ => {}, none,
      fun _ => none, ∅, [], []⟩ (some 0) (some 1) (some 2) (some 3) (some 4) :
      FileSystem (Fin 7)) := .init rfl ⟨rfl, rfl⟩ (by simp [FreshAnswers])
  refine ⟨_, _, booted, rfl, ⟨3, rfl, by decide, rfl⟩, rfl, ⟨4, rfl, by decide, rfl⟩, rfl,
    fun console => rfl, fun behind console answers => rfl, fun behind works => ?_⟩
  have sent := (works 3 5 ⟨3, rfl, by decide, rfl⟩).1 (.inl rfl)
    ⟨fun _ => 0, ⟨fun _ => 0, 0, 0, 0, 0, fun _ => 0⟩⟩ 0 1 (by decide)
  have failed : (-1 : Int) = 1 := congrArg Prod.snd sent
  exact absurd failed (by decide)

end Helios.Fs
