import Helios.Fs.Calls

namespace Helios.Fs

open Helios.Data Helios.Strings FileSystem

/-! The table of open files over whole runs. -/

section

variable {ι : Type}

def Open (fs : FileSystem ι) (fd : Int) (block : ι) : Prop :=
  ∃ index : Nat, fd = index ∧ index < maxFiles ∧ fs.openFiles index = some block

def Full (fs : FileSystem ι) : Prop := ∀ index < maxFiles, fs.openFiles index ≠ none

variable [DecidableEq ι]

/-- `open` returns the smallest descriptor that is not open, and fails only where
there is no block or no descriptor. -/
structure Opening (fs : FileSystem ι) (granted : Option ι) (next : FileSystem ι) (code : Int) :
    Prop where
  failed : code = -1 ↔ granted = none ∨ Full fs
  unchanged : code = -1 → next.openFiles = fs.openFiles ∧ next.live = fs.live
  smallest : code ≠ -1 → ∃ (index : Nat) (block : ι), granted = some block ∧ code = index ∧
    IsLeast {index | index < maxFiles ∧ fs.openFiles index = none} index ∧
    next.openFiles = Function.update fs.openFiles index (some block) ∧
    next.live = insert block fs.live

/-- `close` succeeds for an open descriptor, and frees its block alone. -/
structure Closing (fs : FileSystem ι) (fd : Int) (next : FileSystem ι) (code : Int) : Prop where
  succeeds : code = 0 ↔ ∃ block, Open fs fd block
  failed : code ≠ 0 → code = -1 ∧ next = fs
  released : ∀ block, Open fs fd block →
    next.openFiles = Function.update fs.openFiles fd.toNat none ∧
      next.live = fs.live.erase block ∧ next.freed = block :: fs.freed

variable {fs : FileSystem ι} {list : List ι}

theorem closing (fs : FileSystem ι) (fd : Int) :
    Closing fs fd (closeFile fs fd).1 (closeFile fs fd).2 := by
  by_cases here : ∃ block, Open fs fd block
  · obtain ⟨block, index, same, inside, entry⟩ := here
    subst same
    rw [closeFile_open inside entry]
    refine ⟨⟨fun _ => ⟨block, index, rfl, inside, entry⟩, fun _ => rfl⟩, by simp, ?_⟩
    intro other opened
    obtain ⟨position, equal, _, again⟩ := opened
    have position_eq : index = position := by exact_mod_cast equal
    subst position_eq
    have block_eq : block = other := Option.some.inj (entry.symm.trans again)
    subst block_eq
    exact ⟨rfl, rfl, rfl⟩
  · have missing : closeFile fs fd = (fs, -1) := closeFile_missing fun index same inside => by
      cases entry : fs.openFiles index with
      | none => rfl
      | some block => exact absurd ⟨block, index, same, inside, entry⟩ here
    rw [missing]
    exact ⟨by simp [here], by simp, fun block opened => absurd ⟨block, opened⟩ here⟩

theorem Sound.opening [Fintype ι] {granted : Option ι} (sound : Sound fs list)
    (fresh : Fresh fs granted) (path : CString) (flags mode : Int) :
    ∃ next code, openFile fs path flags mode granted = some (next, code) ∧
      Opening fs granted next code := by
  cases granted with
  | none =>
      exact ⟨fs, -1, openFile_null sound, by simp, fun _ => ⟨rfl, rfl⟩, fun other => absurd rfl other⟩
  | some block =>
      have outside := fresh block rfl
      cases free : freeIndex fs with
      | none =>
          refine ⟨_, _, openFile_full sound free, ?_, fun _ => ⟨rfl, ?_⟩, fun other => absurd rfl other⟩
          · have full : Full fs := freeIndex_eq_none.mp free
            simp [full]
          · simp [freeFile, fillFile, grant, kfree, outside]
      | some index =>
          have least := freeIndex_eq_some.mp free
          have succeeded : (index : Int) ≠ -1 := by omega
          refine ⟨_, _, openFile_free sound free, ?_, fun failed => absurd failed succeeded,
            fun _ => ⟨index, block, rfl, rfl, least, rfl, rfl⟩⟩
          have notFull : ¬Full fs := fun full => full index least.1.1 least.1.2
          simp [succeeded, notFull]

theorem Booted.run_ready [Fintype ι] (booted : Booted fs) {events : List (Event ι)}
    (admissible : Along step Admissible fs events) :
    ∃ after, run step fs events = some after ∧ ∃ list, Sound after list ∧ Accounted after := by
  obtain ⟨list, sound, accounted, _⟩ := booted.ready
  refine run_total (fun fs => ∃ list, Sound fs list ∧ Accounted fs) admissible
    ⟨list, sound, accounted⟩ ?_
  intro state event ready allowed
  obtain ⟨list, sound, accounted⟩ := ready
  obtain ⟨next, after, taken, change⟩ := sound.step allowed
  exact ⟨next, taken, after, sound.change change, accounted.change sound change⟩

end

/-- After any run the open descriptors have blocks of their own, every `file_t`
is in the table or was freed as often as it was allocated, and the next `open`
or `close` does what it should. -/
theorem open_file_table {ι : Type} [DecidableEq ι] [Fintype ι] (fs : FileSystem ι)
    (booted : Booted fs) (events : List (Event ι)) (admissible : Along step Admissible fs events) :
    ∃ after, run step fs events = some after ∧ Accounted after ∧
      (∀ fd other block, Open after fd block → Open after other block → fd = other) ∧
      (∀ path flags mode granted, Fresh after granted → ∃ next code,
        openFile after path flags mode granted = some (next, code) ∧
        Opening after granted next code) ∧
      ∀ fd, Closing after fd (closeFile after fd).1 (closeFile after fd).2 := by
  obtain ⟨after, reached, list, sound, accounted⟩ := booted.run_ready admissible
  refine ⟨after, reached, accounted, ?_, ?_, closing after⟩
  · intro fd other block opened also
    obtain ⟨index, same, _, here⟩ := opened
    obtain ⟨position, equal, _, there⟩ := also
    rw [same, equal, sound.distinct index position block here there]
  · intro path flags mode granted fresh
    exact sound.opening fresh path flags mode

/-- The descriptor of the standard input is used again once it is closed. -/
theorem open_file_table_recycled :
    ∃ after, run step (initFs ⟨fun _ => ⟨ramName, rootName, none, none⟩, fun _ => {}, none,
        fun _ => none, ∅, [], []⟩ (some 0) (some 1) (some 2) (some 3) (some 4))
        [.closeFile 0] = some (after : FileSystem (Fin 6)) ∧
      ∃ next, openFile after rootName 0 0 (some 5) = some (next, 0) := by
  have booted : Booted (initFs ⟨fun _ => ⟨ramName, rootName, none, none⟩, fun _ => {}, none,
      fun _ => none, ∅, [], []⟩ (some 0) (some 1) (some 2) (some 3) (some 4) :
      FileSystem (Fin 6)) := .init rfl ⟨rfl, rfl⟩ (by simp [FreshAnswers])
  obtain ⟨after, reached, _, _, opens, _⟩ := open_file_table _ booted [.closeFile 0]
    ⟨trivial, fun _ _ => trivial⟩
  cases reached
  obtain ⟨next, code, returned, opening⟩ := opens rootName 0 0 (some 5) fun block same => by
    cases same
    decide
  have opened : code ≠ -1 := by
    intro failed
    cases opening.failed.mp failed with
    | inl null => cases null
    | inr full => exact full 0 (by decide) rfl
  obtain ⟨index, _, _, same, least, _⟩ := opening.smallest opened
  have first : index = 0 := Nat.le_zero.mp (least.2 ⟨by decide, rfl⟩)
  have zero : code = 0 := by simpa [first] using same
  rw [zero] at returned
  exact ⟨_, rfl, next, returned⟩

end Helios.Fs
