import Mathlib.Tactic

namespace Helios.Data

/-! Bit fields of machine words, low bit first. -/

def fieldMask (low width : Nat) : Nat := (2 ^ width - 1) <<< low

def field (word low width : Nat) : Nat := word >>> low &&& fieldMask 0 width

/-- Assignment to a bit field: its bits are cleared, then the low bits of the
value take their place. -/
def setField (word low width value : Nat) : Nat :=
  (word ^^^ (word &&& fieldMask low width)) ||| (value &&& fieldMask 0 width) <<< low

section

variable {word low width value other size index : Nat}

theorem fieldMask_testBit :
    (fieldMask low width).testBit index = decide (low ≤ index ∧ index < low + width) := by
  rw [fieldMask, Nat.testBit_shiftLeft, Nat.testBit_two_pow_sub_one, ← Bool.decide_and]
  simp only [decide_eq_decide]
  omega

theorem field_testBit :
    (field word low width).testBit index = (word.testBit (low + index) && decide (index < width)) := by
  simp [field, Nat.testBit_and, Nat.testBit_shiftRight, fieldMask_testBit]

theorem setField_testBit : (setField word low width value).testBit index =
    if low ≤ index ∧ index < low + width then value.testBit (index - low) else word.testBit index := by
  simp only [setField, Nat.testBit_or, Nat.testBit_xor, Nat.testBit_and, Nat.testBit_shiftLeft,
    fieldMask_testBit]
  by_cases inside : low ≤ index ∧ index < low + width
  · have within : index - low < width := by omega
    simp [inside, within]
  · by_cases above : low ≤ index
    · have outside : ¬ index - low < width := by omega
      simp [inside, outside]
    · simp [above]

theorem field_setField_same :
    field (setField word low width value) low width = value % 2 ^ width := by
  apply Nat.eq_of_testBit_eq
  intro index
  rw [field_testBit, setField_testBit, Nat.testBit_mod_two_pow]
  by_cases inside : index < width
  · simp [inside]
  · simp [inside]

theorem field_setField_other (apart : low + width ≤ other ∨ other + size ≤ low) :
    field (setField word low width value) other size = field word other size := by
  apply Nat.eq_of_testBit_eq
  intro index
  rw [field_testBit, field_testBit, setField_testBit]
  by_cases inside : index < size
  · rw [if_neg (by omega)]
  · simp [inside]

theorem setField_lt {total : Nat} (small : word < 2 ^ total) (fits : low + width ≤ total) :
    setField word low width value < 2 ^ total := by
  apply Nat.lt_pow_two_of_testBit
  intro index above
  rw [setField_testBit, if_neg (by omega)]
  exact Nat.testBit_lt_two_pow (small.trans_le (Nat.pow_le_pow_right (by decide) above))

theorem field_zero : field 0 low width = 0 := by
  simp [field]

theorem field_eq : field word low width = word / 2 ^ low % 2 ^ width := by
  rw [field, fieldMask, Nat.shiftLeft_zero, Nat.and_two_pow_sub_one_eq_mod,
    Nat.shiftRight_eq_div_pow]

theorem field_lt : field word low width < 2 ^ width := by
  rw [field_eq]
  exact Nat.mod_lt _ (by positivity)

theorem and_eq_one {left right : Nat} (leftBit : left < 2) (rightBit : right < 2) :
    left &&& right = 1 ↔ left = 1 ∧ right = 1 := by
  have leftCases : left = 0 ∨ left = 1 := by omega
  have rightCases : right = 0 ∨ right = 1 := by omega
  rcases leftCases with rfl | rfl <;> rcases rightCases with rfl | rfl <;> decide

end

end Helios.Data
