import Helios.Data.Answers

namespace Helios.Data

/-- Accesses hear the answers they take and no others. -/
theorem heard_taken {log : List Access} {taken more : List Nat} (counted : reads log = taken.length) :
    heard log (taken ++ more) = heard log taken := by
  induction log generalizing taken with
  | nil => rfl
  | cons access log ih =>
      cases access with
      | outb port value =>
          rw [reads_outb] at counted
          rw [heard, heard, ih counted]
      | outw port value =>
          rw [reads_outw] at counted
          rw [heard, heard, ih counted]
      | inb port =>
          cases taken with
          | nil => simp at counted
          | cons answer taken =>
              rw [List.cons_append, heard, heard, List.tail_cons, List.tail_cons,
                ih (by simpa using counted)]
              rfl
      | inw port =>
          cases taken with
          | nil => simp at counted
          | cons answer taken =>
              rw [List.cons_append, heard, heard, List.tail_cons, List.tail_cons,
                ih (by simpa using counted)]
              rfl

namespace Port

/-! Programs in front of the device that answers them.

A device is a machine that takes one access after another, each with the value
it reads, and refuses what it would not have answered. -/

section

variable {α β σ : Type} {step : σ → Access × Option Nat → Option σ} {state final : σ}
variable {program : Port α} {next : α → Port β} {result : β} {port byte : Nat}

/-- A run of the program all of whose answers come from the device. -/
def Served (step : σ → Access × Option Nat → Option σ) (state : σ) (program : Port α)
    (value : α) (final : σ) : Prop :=
  ∃ answers rest, (program answers).result = some (value, rest) ∧
    watched step state program answers = some final

theorem served_pure {value other : α} :
    Served step state (Pure.pure value) other final ↔ value = other ∧ state = final := by
  constructor
  · rintro ⟨answers, rest, finished, passed⟩
    cases finished
    exact ⟨rfl, Option.some.inj passed⟩
  · rintro ⟨rfl, rfl⟩
    exact ⟨[], [], rfl, rfl⟩

theorem served_bind (regular : Regular program) :
    Served step state (program >>= next) result final ↔ ∃ value middle,
      Served step state program value middle ∧ Served step middle (next value) result final := by
  constructor
  · rintro ⟨answers, left, finished, passed⟩
    obtain ⟨value, rest, first, second⟩ := bind_result finished
    rw [watched_bind regular first] at passed
    obtain ⟨middle, early, late⟩ := Option.bind_eq_some_iff.mp passed
    exact ⟨value, middle, ⟨answers, rest, first, early⟩, rest, left, second, late⟩
  · rintro ⟨value, middle, ⟨answers, rest, first, early⟩, others, left, second, late⟩
    obtain ⟨taken, rfl, counted, extended⟩ := regular answers value rest first
    have again : (program (taken ++ others)).result = some (value, others) := by rw [extended]
    refine ⟨taken ++ others, left, by rw [bind_finished again, second], ?_⟩
    rw [watched_bind regular again]
    refine Option.bind_eq_some_iff.mpr ⟨middle, ?_, late⟩
    rw [watched, heard_taken counted] at early
    rw [watched, extended]
    exact (congrArg _ (heard_taken counted)).trans early

theorem served_outb {value : Unit} : Served step state (Port.outb port byte) value final ↔
    step state (.outb port byte, none) = some final := by
  constructor
  · rintro ⟨answers, rest, finished, passed⟩
    cases finished
    exact (Option.bind_fun_some _).symm.trans passed
  · intro taken
    exact ⟨[], [], rfl, (Option.bind_fun_some _).trans taken⟩

theorem served_inb {value : Nat} : Served step state (Port.inb port) value final ↔
    value < 256 ∧ step state (.inb port, some value) = some final := by
  constructor
  · rintro ⟨answers, rest, finished, passed⟩
    cases answers with
    | nil => cases finished
    | cons answer answers =>
        cases finished
        exact ⟨Nat.mod_lt _ (by omega), watched_inb.symm.trans passed⟩
  · rintro ⟨small, taken⟩
    refine ⟨[value], [], by rw [Port.inb, Nat.mod_eq_of_lt small], ?_⟩
    rw [watched_inb, Nat.mod_eq_of_lt small]
    exact taken

theorem served_outb_bind {next : Unit → Port β} :
    Served step state (Port.outb port byte >>= next) result final ↔
      ∃ middle, step state (.outb port byte, none) = some middle ∧
        Served step middle (next ()) result final := by
  rw [served_bind Regular.outb]
  constructor
  · rintro ⟨value, middle, first, second⟩
    exact ⟨middle, served_outb.mp first, second⟩
  · rintro ⟨middle, first, second⟩
    exact ⟨(), middle, served_outb.mpr first, second⟩

theorem served_inb_bind {next : Nat → Port β} :
    Served step state (Port.inb port >>= next) result final ↔
      ∃ value < 256, ∃ middle, step state (.inb port, some value) = some middle ∧
        Served step middle (next value) result final := by
  rw [served_bind Regular.inb]
  constructor
  · rintro ⟨value, middle, first, second⟩
    obtain ⟨small, taken⟩ := served_inb.mp first
    exact ⟨value, small, middle, taken, second⟩
  · rintro ⟨value, small, middle, taken, second⟩
    exact ⟨value, middle, served_inb.mpr ⟨small, taken⟩, second⟩

end

end Port

end Helios.Data
