import Mathlib.Tactic

namespace Helios.Strings

/-! The functions of `string.c` that the registries use.

A string is the list of its bytes before the terminator, so the end of the list
is where the source reads a zero byte. -/

def strcmp : List UInt8 → List UInt8 → Int
  | [], [] => 0
  | [], second :: _ => -(second.toNat : Int)
  | first :: _, [] => first.toNat
  | first :: rest, second :: others =>
      if first ≠ 0 ∧ first = second then strcmp rest others
      else (first.toNat : Int) - second.toNat

def strncmp : List UInt8 → List UInt8 → Nat → Int
  | _, _, 0 => 0
  | [], [], _ + 1 => 0
  | [], second :: _, _ + 1 => -(second.toNat : Int)
  | first :: _, [], _ + 1 => first.toNat
  | first :: rest, second :: others, count + 1 =>
      if first ≠ second then (first.toNat : Int) - second.toNat
      else if first = 0 then 0
      else strncmp rest others count

/-- Bytes without a terminator among them. -/
abbrev CString := { text : List UInt8 // (0 : UInt8) ∉ text }

/-- The string in a zeroed field after `strncpy` of at most `count` bytes to it;
the field is longer than that. -/
def strncpy (source : CString) (count : Nat) : CString :=
  ⟨source.val.take count, fun terminator => source.property (List.mem_of_mem_take terminator)⟩

theorem strcmp_eq_zero {first second : List UInt8} (firstText : (0 : UInt8) ∉ first)
    (secondText : (0 : UInt8) ∉ second) : strcmp first second = 0 ↔ first = second := by
  induction first generalizing second with
  | nil =>
      cases second with
      | nil => simp [strcmp]
      | cons byte rest =>
          have nonzero : byte ≠ 0 := fun same => secondText (by simp [same])
          simpa [strcmp, ← UInt8.toNat_inj] using nonzero
  | cons byte rest ih =>
      have nonzero : byte ≠ 0 := fun same => firstText (by simp [same])
      cases second with
      | nil => simpa [strcmp, ← UInt8.toNat_inj] using nonzero
      | cons other others =>
          by_cases same : byte = other
          · subst same
            have tail := @ih others (fun member => firstText (by simp [member]))
              (fun member => secondText (by simp [member]))
            simp [strcmp, nonzero, tail]
          · have different : byte.toNat ≠ other.toNat := fun equal => same (UInt8.toNat_inj.mp equal)
            simp only [strcmp, same, and_false, if_false, List.cons.injEq, false_and,
              iff_false]
            omega

/-- Compared over the length of the second string, the two agree where it is a
prefix of the first. -/
theorem strncmp_length_eq_zero {first second : List UInt8} (secondText : (0 : UInt8) ∉ second) :
    strncmp first second second.length = 0 ↔ second <+: first := by
  induction second generalizing first with
  | nil => simp [strncmp]
  | cons other others ih =>
      have nonzero : other ≠ 0 := fun same => secondText (by simp [same])
      cases first with
      | nil => simpa [strncmp, ← UInt8.toNat_inj] using nonzero
      | cons byte rest =>
          rw [List.cons_prefix_cons, List.length_cons, strncmp]
          by_cases same : byte = other
          · subst same
            rw [if_neg (not_not.mpr rfl), if_neg nonzero]
            simpa using ih fun member => secondText (by simp [member])
          · have different : byte.toNat ≠ other.toNat := fun equal => same (UInt8.toNat_inj.mp equal)
            rw [if_pos same]
            simp only [Ne.symm same, false_and, iff_false]
            omega

end Helios.Strings
