import Helios.Fs.Files
import Helios.Syscall.Model

namespace Helios.Fs

open Helios.Data Helios.Syscall FileSystem

/-! `seek`: a signed offset added to an unsigned position, and the position
returned as a signed number.

`SEEK_SET`, `SEEK_CUR` and `SEEK_END` are 0, 1 and 2. -/

section

variable {ι : Type} [DecidableEq ι]

def setPos (fs : FileSystem ι) (block : ι) (pos : Nat) : FileSystem ι :=
  { fs with file := Function.update fs.file block { fs.file block with pos } }

/-- An `int` stored in a `uint32_t`. -/
def word (value : Int) : Nat := (value % 4294967296).toNat

def seek (fs : FileSystem ι) (fd offset whence : Int) : FileSystem ι × Int :=
  if fd < 0 ∨ maxFiles ≤ fd then (fs, -1)
  else
    match fs.openFiles fd.toNat with
    | none => (fs, -1)
    | some block =>
        let pos := (fs.file block).pos
        if whence = 0 then (setPos fs block (word offset), signed (word offset))
        else if whence = 1 then
          (setPos fs block (word (pos + offset)), signed (word (pos + offset)))
        else if whence = 2 then (fs, signed pos)
        else (fs, -1)

/-- The arguments of a call; `offset` is an `int`. -/
structure SeekCall where
  fd : Int
  offset : Int
  whence : Int
  lower : -2147483648 ≤ offset
  upper : offset < 2147483648

def seekStep (fs : FileSystem ι) (call : SeekCall) : Option (FileSystem ι) :=
  some (seek fs call.fd call.offset call.whence).1

/-- A failure leaves the position alone, and what is returned otherwise is the
new position, the one the call asked for. -/
structure Seeks (pos : Nat) (offset whence : Int) (after : Nat) (result : Int) : Prop where
  failed : result < 0 → after = pos
  position : 0 ≤ result → (after : Int) = result
  set : 0 ≤ result → whence = 0 → result = offset
  current : 0 ≤ result → whence = 1 → result = pos + offset

def Faithful (fs : FileSystem ι) (call : SeekCall) : Prop :=
  ∀ block, Open fs call.fd block →
    Seeks (fs.file block).pos call.offset call.whence
      ((seek fs call.fd call.offset call.whence).1.file block).pos
      (seek fs call.fd call.offset call.whence).2

/-- The position asked for is not negative and below 2^31, or it is the word
the file is at already. -/
def InRange (pos : Nat) (offset whence : Int) : Prop :=
  (whence = 0 → 0 ≤ offset ∨ (pos : Int) = offset + 4294967296) ∧
  (whence = 1 → (0 ≤ pos + offset ∧ pos + offset < 2147483648) ∨ offset = 0)

/-- The condition for a call on an open descriptor. -/
def Reasonable (fs : FileSystem ι) (call : SeekCall) : Prop :=
  ∀ block, Open fs call.fd block → InRange (fs.file block).pos call.offset call.whence

/-- Every position is a 32-bit word. -/
def Words (fs : FileSystem ι) : Prop := ∀ block, (fs.file block).pos < 4294967296

variable {fs : FileSystem ι} {block : ι} {fd offset whence : Int} {pos : Nat}

theorem pos_setPos {other : ι} :
    ((setPos fs block pos).file other).pos = if other = block then pos else (fs.file other).pos := by
  by_cases same : other = block
  · subst same
    simp [setPos]
  · simp [setPos, same]

theorem word_lt (value : Int) : word value < 4294967296 := by
  unfold word
  omega

theorem Words.setPos (words : Words fs) (small : pos < 4294967296) :
    Words (setPos fs block pos) := by
  intro other
  rw [pos_setPos]
  split
  · exact small
  · exact words other

theorem Words.seek (words : Words fs) (fd offset whence : Int) :
    Words (seek fs fd offset whence).1 := by
  unfold Fs.seek
  split
  · exact words
  · split
    · exact words
    · simp only
      split_ifs
      · exact words.setPos (word_lt _)
      · exact words.setPos (word_lt _)
      · exact words
      · exact words

/-- What a call does to the position of its file. -/
def moved (pos : Nat) (offset whence : Int) : Nat :=
  if whence = 0 then word offset else if whence = 1 then word (pos + offset) else pos

def answer (pos : Nat) (offset whence : Int) : Int :=
  if whence = 0 ∨ whence = 1 ∨ whence = 2 then signed (moved pos offset whence) else -1

theorem seek_open (opened : Open fs fd block) :
    ((seek fs fd offset whence).1.file block).pos = moved (fs.file block).pos offset whence ∧
      (seek fs fd offset whence).2 = answer (fs.file block).pos offset whence := by
  obtain ⟨index, rfl, inside, entry⟩ := opened
  have valid : ¬ ((index : Int) < 0 ∨ (maxFiles : Int) ≤ index) := by omega
  rw [seek, if_neg valid, Int.toNat_natCast, entry]
  simp only [moved, answer]
  by_cases set : whence = 0
  · simp [set, pos_setPos]
  · by_cases current : whence = 1
    · simp [current, pos_setPos]
    · by_cases stop : whence = 2 <;> simp [set, current, stop]

/-- The returned word is negative from 2^31 on. -/
theorem signed_cases (value : Int) :
    (word value < 2147483648 ∧ signed (word value) = word value) ∨
      (2147483648 ≤ word value ∧ signed (word value) = word value - 4294967296) := by
  have small := word_lt value
  unfold signed
  split <;> omega

theorem seeks_set_iff (lower : -2147483648 ≤ offset) (upper : offset < 2147483648) :
    Seeks pos offset 0 (word offset) (signed (word offset)) ↔
      0 ≤ offset ∨ (pos : Int) = offset + 4294967296 := by
  have value : (word offset : Int) = offset ∨ (word offset : Int) = offset + 4294967296 := by
    unfold word
    omega
  have bound := word_lt offset
  have cases := signed_cases offset
  constructor
  · intro seeks
    have failed := seeks.failed
    omega
  · intro wanted
    exact ⟨by omega, by omega, by omega, by omega⟩

theorem seeks_current_iff (small : pos < 4294967296) (lower : -2147483648 ≤ offset)
    (upper : offset < 2147483648) :
    Seeks pos offset 1 (word (pos + offset)) (signed (word (pos + offset))) ↔
      (0 ≤ pos + offset ∧ pos + offset < 2147483648) ∨ offset = 0 := by
  have value : (word (pos + offset) : Int) = pos + offset ∨
      (word (pos + offset) : Int) = pos + offset + 4294967296 ∨
      (word (pos + offset) : Int) = pos + offset - 4294967296 := by
    unfold word
    omega
  have bound := word_lt (pos + offset)
  have cases := signed_cases (pos + offset)
  constructor
  · intro seeks
    have failed := seeks.failed
    have current := seeks.current
    omega
  · intro wanted
    exact ⟨by omega, by omega, by omega, by omega⟩

theorem seeks_iff (small : pos < 4294967296) (lower : -2147483648 ≤ offset)
    (upper : offset < 2147483648) :
    Seeks pos offset whence (moved pos offset whence) (answer pos offset whence) ↔
      InRange pos offset whence := by
  by_cases set : whence = 0
  · subst set
    exact (seeks_set_iff lower upper).trans
      ⟨fun wanted => ⟨fun _ => wanted, by omega⟩, fun inRange => inRange.1 rfl⟩
  · by_cases current : whence = 1
    · subst current
      exact (seeks_current_iff small lower upper).trans
        ⟨fun wanted => ⟨by omega, fun _ => wanted⟩, fun inRange => inRange.2 rfl⟩
    · have inRange : InRange pos offset whence :=
        ⟨fun same => absurd same set, fun same => absurd same current⟩
      refine ⟨fun _ => inRange, fun _ => ⟨?_, ?_, fun _ same => absurd same set,
        fun _ same => absurd same current⟩⟩
      · simp [moved, set, current]
      · intro positive
        by_cases stop : whence = 2
        · subst stop
          have result : answer pos offset 2 = signed pos := rfl
          rw [result] at positive ⊢
          show (pos : Int) = signed pos
          unfold signed at positive ⊢
          split_ifs at positive ⊢
          · rfl
          · omega
        · simp [answer, set, current, stop] at positive

theorem faithful_iff {call : SeekCall} (words : Words fs) : Faithful fs call ↔ Reasonable fs call := by
  have same (block : ι) (opened : Open fs call.fd block) :
      Seeks (fs.file block).pos call.offset call.whence
          ((seek fs call.fd call.offset call.whence).1.file block).pos
          (seek fs call.fd call.offset call.whence).2 ↔
        InRange (fs.file block).pos call.offset call.whence := by
    obtain ⟨position, result⟩ := @seek_open _ _ _ _ _ call.offset call.whence opened
    rw [position, result]
    exact seeks_iff (words block) call.lower call.upper
  exact forall₂_congr same

/-- In every sequence of calls, from any positions, all calls keep to the
rules if and only if each one asks for a position it can have. -/
theorem seeks_faithful_iff (fs : FileSystem ι) (words : Words fs) (calls : List SeekCall) :
    Along seekStep Faithful fs calls ↔ Along seekStep Reasonable fs calls := by
  have kept (ok : FileSystem ι → SeekCall → Prop) (fs : FileSystem ι) (call : SeekCall)
      (next : FileSystem ι) (words : Words fs) (_ : ok fs call)
      (taken : seekStep fs call = some next) : Words next := by
    cases taken
    exact words.seek _ _ _
  exact ⟨fun faithful => faithful.imp_of_invariant Words words (kept _) fun _ _ words =>
      (faithful_iff words).mp,
    fun reasonable => reasonable.imp_of_invariant Words words (kept _) fun _ _ words =>
      (faithful_iff words).mpr⟩

/-- A descriptor 0 that is open on block 0. -/
def openedZero : FileSystem (Fin 1) where
  mounted _ := ⟨ramName, rootName, none, none⟩
  file _ := {}
  mountedFsList := none
  openFiles := Function.update (fun _ => none) 0 (some 0)
  live := {0}
  allocated := [0]
  freed := []

theorem openedZero_words : Words openedZero := fun _ => (by decide : 0 < 4294967296)

theorem openedZero_open : Open openedZero 0 0 := ⟨0, rfl, by decide, rfl⟩

/-- Forward by 10, back by 4. -/
theorem seeks_faithful_iff_ten :
    Along seekStep Faithful openedZero
      [⟨0, 10, 0, by decide, by decide⟩, ⟨0, -4, 1, by decide, by decide⟩] := by
  refine (seeks_faithful_iff openedZero openedZero_words _).mpr
    ⟨fun block _ => ?_, fun next taken => ⟨fun block _ => ?_, fun _ _ => trivial⟩⟩
  · exact ⟨fun _ => .inl (by decide), fun current => absurd current (by decide)⟩
  · cases taken
    have only : block = 0 := Subsingleton.elim _ _
    subst only
    exact ⟨fun set => absurd set (by decide), fun _ => .inl (by decide)⟩

/-- From the start of a file, a seek to -1 is refused, and moves the file to
the position 4294967295. -/
theorem seek_negative_moves :
    (seek openedZero 0 (-1) 0).2 = -1 ∧ (openedZero.file 0).pos = 0 ∧
      ((seek openedZero 0 (-1) 0).1.file 0).pos = 4294967295 ∧
      ¬ Along seekStep Faithful openedZero [⟨0, -1, 0, by decide, by decide⟩] := by
  refine ⟨by decide, by decide, by decide, fun faithful => ?_⟩
  have failed := (faithful.1 0 openedZero_open).failed (by decide)
  exact absurd failed (by decide)

end

end Helios.Fs
