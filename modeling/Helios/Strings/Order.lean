import Helios.Strings.Model

namespace Helios.Strings

/-! What the comparisons of `string.c` read, and the order they compute.

The loops run here over the bytes the pointers may still read, the terminator
among them, and a read past the last of these has no value.  A string occupies
an address space of 2^32 bytes at most, so the 32-bit counters count it. -/

/-- The bytes of a string in memory. -/
def CString.stored (string : CString) : List UInt8 := string.val ++ [0]

namespace Stored

def strlen : List UInt8 → Option Nat
  | [] => none
  | byte :: rest =>
      if byte.toInt8 ≠ 0 then (strlen rest).map (· + 1) else some 0

/-- The bytes are compared as `char`, which is signed, and subtracted as
`unsigned char`. -/
def strcmp : List UInt8 → List UInt8 → Option Int
  | first :: rest, second :: others =>
      if first.toInt8 ≠ 0 ∧ first.toInt8 = second.toInt8 then strcmp rest others
      else some ((first.toNat : Int) - second.toNat)
  | _, _ => none

def strncmp : List UInt8 → List UInt8 → Nat → Option Int
  | _, _, 0 => some 0
  | first :: rest, second :: others, count + 1 =>
      if first.toInt8 ≠ second.toInt8 then some ((first.toNat : Int) - second.toNat)
      else if first.toInt8 = 0 then some 0
      else strncmp rest others count
  | _, _, _ + 1 => none

end Stored

theorem toInt8_inj {first second : UInt8} : first.toInt8 = second.toInt8 ↔ first = second := by
  constructor
  · intro same
    rw [← first.toUInt8_toInt8, same, second.toUInt8_toInt8]
  · exact congrArg UInt8.toInt8

theorem toInt8_eq_zero {byte : UInt8} : byte.toInt8 = 0 ↔ byte = 0 :=
  @toInt8_inj byte 0

theorem strlen_stored (string : CString) :
    Stored.strlen string.stored = some string.val.length := by
  obtain ⟨text, terminated⟩ := string
  unfold CString.stored
  induction text with
  | nil => rfl
  | cons byte rest ih =>
      have nonzero : byte ≠ 0 := fun same => terminated (by simp [same])
      have tail := ih fun member => terminated (by simp [member])
      rw [List.cons_append, Stored.strlen, if_pos (mt toInt8_eq_zero.mp nonzero), tail]
      rfl

/-- `strcmp` stops at a terminator or before one, so its loop over the stored
bytes has a result, the one of the strings' texts. -/
theorem strcmp_stored (first second : CString) :
    Stored.strcmp first.stored second.stored = some (strcmp first.val second.val) := by
  obtain ⟨first, firstText⟩ := first
  obtain ⟨second, secondText⟩ := second
  unfold CString.stored
  induction first generalizing second with
  | nil => cases second <;> simp [Stored.strcmp, strcmp]
  | cons byte rest ih =>
      have nonzero : byte ≠ 0 := fun same => firstText (by simp [same])
      cases second with
      | nil =>
          simp [Stored.strcmp, strcmp]
      | cons other others =>
          have tail := @ih (fun member => firstText (by simp [member])) others
            (fun member => secondText (by simp [member]))
          simp only [List.cons_append] at tail ⊢
          rw [Stored.strcmp, strcmp]
          simp only [toInt8_inj, ne_eq, toInt8_eq_zero, tail]
          split <;> rfl

theorem strncmp_stored (first second : CString) (count : Nat) :
    Stored.strncmp first.stored second.stored count =
      some (strncmp first.val second.val count) := by
  obtain ⟨first, firstText⟩ := first
  obtain ⟨second, secondText⟩ := second
  unfold CString.stored
  induction count generalizing first second with
  | zero => simp [Stored.strncmp, strncmp]
  | succ count ih =>
      cases first with
      | nil =>
          cases second with
          | nil => rfl
          | cons other others =>
              have nonzero : other ≠ 0 := fun same => secondText (by simp [same])
              rw [List.nil_append, List.cons_append, Stored.strncmp, strncmp,
                if_pos (mt toInt8_inj.mp nonzero.symm)]
              simp
      | cons byte rest =>
          have nonzero : byte ≠ 0 := fun same => firstText (by simp [same])
          cases second with
          | nil =>
              rw [List.nil_append, List.cons_append, Stored.strncmp, strncmp,
                if_pos (mt toInt8_inj.mp nonzero)]
              simp
          | cons other others =>
              have tail := ih rest (fun member => firstText (by simp [member])) others
                (fun member => secondText (by simp [member]))
              simp only [List.cons_append, Stored.strncmp, strncmp, tail, ne_eq, toInt8_inj,
                toInt8_eq_zero]
              split_ifs <;> rfl

theorem strcmp_swap (first second : List UInt8) : strcmp second first = -strcmp first second := by
  induction first generalizing second with
  | nil => cases second <;> simp [strcmp]
  | cons byte rest ih =>
      cases second with
      | nil => simp [strcmp]
      | cons other others =>
          by_cases same : byte = other
          · subst same
            by_cases zero : byte = 0
            · simp [strcmp, zero]
            · simpa [strcmp, zero] using ih others
          · simp [strcmp, same, Ne.symm same]

/-- The sign of `strcmp` is the lexicographic order of the two strings' bytes. -/
theorem strcmp_neg_iff {first second : List UInt8} (firstText : (0 : UInt8) ∉ first)
    (secondText : (0 : UInt8) ∉ second) : strcmp first second < 0 ↔ first < second := by
  induction first generalizing second with
  | nil =>
      cases second with
      | nil => simp [strcmp]
      | cons other others =>
          have nonzero : other ≠ 0 := fun same => secondText (by simp [same])
          have positive : 0 < other.toNat := by
            simpa [Nat.pos_iff_ne_zero, ← UInt8.toNat_inj] using nonzero
          simpa [strcmp] using positive
  | cons byte rest ih =>
      have nonzero : byte ≠ 0 := fun same => firstText (by simp [same])
      cases second with
      | nil => simp [strcmp]
      | cons other others =>
          rw [List.cons_lt_cons_iff]
          by_cases same : byte = other
          · subst same
            have tail := @ih others (fun member => firstText (by simp [member]))
              (fun member => secondText (by simp [member]))
            simpa [strcmp, nonzero, UInt8.lt_iff_toNat_lt] using tail
          · simp only [strcmp, same, and_false, if_false, false_and, or_false,
              UInt8.lt_iff_toNat_lt]
            omega

/-- Up to `count` bytes, `strncmp` compares as `strcmp` does strings cut there. -/
theorem strncmp_eq_strcmp_take {first second : List UInt8} (firstText : (0 : UInt8) ∉ first)
    (count : Nat) :
    strncmp first second count = strcmp (first.take count) (second.take count) := by
  induction count generalizing first second with
  | zero => simp [strncmp, strcmp]
  | succ count ih =>
      cases first with
      | nil => cases second <;> simp [strncmp, strcmp]
      | cons byte rest =>
          have nonzero : byte ≠ 0 := fun same => firstText (by simp [same])
          cases second with
          | nil => simp [strncmp, strcmp]
          | cons other others =>
              have tail := @ih rest others fun member => firstText (by simp [member])
              by_cases same : byte = other
              · simp [strncmp, strcmp, ← same, nonzero, tail]
              · simp [strncmp, strcmp, same]

theorem strcmp_trans {first second third : List UInt8} (firstText : (0 : UInt8) ∉ first)
    (secondText : (0 : UInt8) ∉ second) (thirdText : (0 : UInt8) ∉ third)
    (below : strcmp first second ≤ 0) (next : strcmp second third ≤ 0) :
    strcmp first third ≤ 0 := by
  have notAbove {left right : List UInt8} (leftText : (0 : UInt8) ∉ left)
      (rightText : (0 : UInt8) ∉ right) : strcmp left right ≤ 0 ↔ left ≤ right := by
    rw [← List.not_lt, ← strcmp_neg_iff rightText leftText, strcmp_swap left right]
    omega
  exact (notAbove firstText thirdText).mpr
    (List.le_trans ((notAbove firstText secondText).mp below)
      ((notAbove secondText thirdText).mp next))

/-- On any strings, the comparisons read none of the bytes after a terminator
and order the strings by their unsigned bytes; `strncmp` orders what is left of
them when they are cut. -/
theorem comparisons_order_strings (first second third : CString) (count : Nat) :
    ∃ order next skipping length cut whole : Int,
      Stored.strcmp first.stored second.stored = some order ∧
      (order = 0 ↔ first = second) ∧
      (order < 0 ↔ first.val < second.val) ∧ (0 < order ↔ second.val < first.val) ∧
      Stored.strcmp second.stored first.stored = some (-order) ∧
      Stored.strcmp second.stored third.stored = some next ∧
      Stored.strcmp first.stored third.stored = some skipping ∧
      (order ≤ 0 → next ≤ 0 → skipping ≤ 0) ∧ (order < 0 → next < 0 → skipping < 0) ∧
      (Stored.strlen second.stored).bind (Stored.strncmp first.stored second.stored) =
        some length ∧
      (length = 0 ↔ second.val <+: first.val) ∧
      Stored.strncmp first.stored second.stored count = some cut ∧
      Stored.strcmp (first.val.take count ++ [0]) (second.val.take count ++ [0]) = some whole ∧
      cut.sign = whole.sign := by
  have firstText := first.property
  have secondText := second.property
  have cutStored (string : CString) :
      string.val.take count ++ [0] = (strncpy string count).stored := rfl
  refine ⟨strcmp first.val second.val, strcmp second.val third.val,
    strcmp first.val third.val, strncmp first.val second.val second.val.length,
    strncmp first.val second.val count,
    strcmp (first.val.take count) (second.val.take count),
    strcmp_stored first second, ?_, strcmp_neg_iff firstText secondText, ?_, ?_,
    strcmp_stored second third, strcmp_stored first third,
    strcmp_trans firstText secondText third.property, ?_, ?_,
    strncmp_length_eq_zero secondText, strncmp_stored first second count, ?_, ?_⟩
  · rw [strcmp_eq_zero firstText secondText, Subtype.ext_iff]
  · rw [← strcmp_neg_iff secondText firstText, strcmp_swap first.val second.val]
    omega
  · rw [strcmp_stored, strcmp_swap first.val second.val]
  · intro below after
    rw [strcmp_neg_iff firstText third.property]
    exact List.lt_trans ((strcmp_neg_iff firstText secondText).mp below)
      ((strcmp_neg_iff secondText third.property).mp after)
  · rw [strlen_stored, Option.bind_some, strncmp_stored]
  · rw [cutStored, cutStored, strcmp_stored]
    rfl
  · rw [strncmp_eq_strcmp_take firstText]

end Helios.Strings
