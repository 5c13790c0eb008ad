import Mathlib.Tactic
import Mathlib.Data.Finset.Card

namespace Helios.Data

/-! Bitmaps packed into 32-bit words. -/

abbrev Bitmap := Nat → BitVec 32

namespace Bitmap

def mask (bit : Nat) : BitVec 32 := 1#32 <<< (bit % 32)

def test (bitmap : Bitmap) (bit : Nat) : Bool := bitmap (bit / 32) &&& mask bit ≠ 0#32

def set (bitmap : Bitmap) (bit : Nat) : Bitmap :=
  Function.update bitmap (bit / 32) (bitmap (bit / 32) ||| mask bit)

def clear (bitmap : Bitmap) (bit : Nat) : Bitmap :=
  Function.update bitmap (bit / 32) (bitmap (bit / 32) &&& ~~~mask bit)

/-- The first words set to zero. -/
def zero (bitmap : Bitmap) (words : Nat) : Bitmap :=
  fun word => if word < words then 0#32 else bitmap word

section

variable {bitmap : Bitmap} {bit other words limit : Nat}

theorem mask_getLsbD {position : Nat} :
    (mask bit).getLsbD position = decide (position = bit % 32) := by
  rw [mask, BitVec.getLsbD_shiftLeft]
  by_cases same : position = bit % 32
  · simp [same, Nat.mod_lt]
  · by_cases before : position < bit % 32
    · simp [same, before]
    · have positive : position - bit % 32 ≠ 0 := by omega
      simp [same, positive]

theorem test_eq_getLsbD : bitmap.test bit = (bitmap (bit / 32)).getLsbD (bit % 32) := by
  rw [test]
  cases held : (bitmap (bit / 32)).getLsbD (bit % 32) with
  | true =>
      rw [decide_eq_true_iff]
      intro empty
      have here := congrArg (fun word => BitVec.getLsbD word (bit % 32)) empty
      simp [BitVec.getLsbD_and, mask_getLsbD, held] at here
  | false =>
      rw [decide_eq_false_iff_not, not_not]
      apply BitVec.eq_of_getLsbD_eq
      intro position _
      rw [BitVec.getLsbD_and, mask_getLsbD]
      by_cases same : position = bit % 32
      · simp [same, held]
      · simp [same]

@[simp] theorem test_set :
    (bitmap.set bit).test other = (decide (other = bit) || bitmap.test other) := by
  rw [test_eq_getLsbD, test_eq_getLsbD]
  unfold Bitmap.set
  by_cases word : other / 32 = bit / 32
  · rw [word, Function.update_self, BitVec.getLsbD_or, mask_getLsbD, Bool.or_comm]
    congr 1
    simp only [decide_eq_decide]
    omega
  · have different : other ≠ bit := fun same => word (by rw [same])
    rw [Function.update_of_ne word]
    simp [different]

@[simp] theorem test_clear :
    (bitmap.clear bit).test other = (decide (other ≠ bit) && bitmap.test other) := by
  have inside : other % 32 < 32 := Nat.mod_lt _ (by decide)
  rw [test_eq_getLsbD, test_eq_getLsbD]
  unfold Bitmap.clear
  by_cases word : other / 32 = bit / 32
  · rw [word, Function.update_self, BitVec.getLsbD_and, BitVec.getLsbD_not, mask_getLsbD,
      Bool.and_comm]
    congr 1
    simp only [inside, decide_true, Bool.true_and, ← decide_not, decide_eq_decide]
    omega
  · have different : other ≠ bit := fun same => word (by rw [same])
    rw [Function.update_of_ne word]
    simp [different]

theorem test_zero (inside : bit < 32 * words) : (bitmap.zero words).test bit = false := by
  have here : bit / 32 < words := by omega
  simp [test, zero, here]

/-- The clear bits below `limit`. -/
def clearBits (bitmap : Bitmap) (limit : Nat) : Finset Nat :=
  (Finset.range limit).filter fun bit => bitmap.test bit = false

theorem mem_clearBits : bit ∈ bitmap.clearBits limit ↔ bit < limit ∧ bitmap.test bit = false := by
  simp [clearBits]

theorem card_clearBits_le : (bitmap.clearBits limit).card ≤ limit := by
  have most := Finset.card_le_card
    (Finset.filter_subset (fun bit => bitmap.test bit = false) (Finset.range limit))
  simpa [clearBits] using most

theorem clearBits_set : (bitmap.set bit).clearBits limit = (bitmap.clearBits limit).erase bit := by
  ext other
  simp only [mem_clearBits, test_set, Bool.or_eq_false_iff, decide_eq_false_iff_not,
    Finset.mem_erase]
  tauto

theorem clearBits_clear (inside : bit < limit) :
    (bitmap.clear bit).clearBits limit = insert bit (bitmap.clearBits limit) := by
  ext other
  simp only [mem_clearBits, test_clear, Finset.mem_insert]
  by_cases same : other = bit
  · simp [same, inside]
  · simp [same]

theorem card_clearBits_set (inside : bit < limit) (free : bitmap.test bit = false) :
    ((bitmap.set bit).clearBits limit).card + 1 = (bitmap.clearBits limit).card := by
  rw [clearBits_set, Finset.card_erase_add_one (mem_clearBits.mpr ⟨inside, free⟩)]

theorem card_clearBits_clear (inside : bit < limit) (used : bitmap.test bit = true) :
    ((bitmap.clear bit).clearBits limit).card = (bitmap.clearBits limit).card + 1 := by
  rw [clearBits_clear inside, Finset.card_insert_of_notMem]
  simp [mem_clearBits, used]

end

end Bitmap

end Helios.Data
