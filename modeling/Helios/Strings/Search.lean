import Helios.Strings.Order

namespace Helios.Strings

/-! `strstr` of `string.c`: where a string occurs first in another one. -/

/-- The first place in `haystack` from which on it goes on with `needle`. -/
def firstOccurrence {α : Type*} [DecidableEq α] (needle haystack : List α) : Option Nat :=
  haystack.tails.findIdx? fun tail => needle.isPrefixOf tail

namespace Stored

/-- The inner loop of `strstr` at `haystack + i`: what `needle + j` points to in
the end. -/
def skipMatch : List UInt8 → List UInt8 → Option (List UInt8)
  | _, [] => none
  | [], wanted :: rest => if wanted.toInt8 ≠ 0 then none else some (wanted :: rest)
  | byte :: haystack, wanted :: rest =>
      if wanted.toInt8 ≠ 0 ∧ byte.toInt8 = wanted.toInt8 then skipMatch haystack rest
      else some (wanted :: rest)

/-- The outer loop at `haystack + i`: the place it returns, or `NULL`. -/
def searchFrom (needle : List UInt8) : Nat → List UInt8 → Option (Option Nat)
  | _, [] => none
  | i, byte :: rest =>
      if byte.toInt8 = 0 then some none
      else
        needle.head?.bind fun first =>
          if byte.toInt8 ≠ first.toInt8 then searchFrom needle (i + 1) rest
          else
            (skipMatch (byte :: rest) needle).bind fun left =>
              left.head?.bind fun last =>
                if last.toInt8 = 0 then some (some i) else searchFrom needle (i + 1) rest

/-- `strstr`, with the place in `haystack` that is returned, or `NULL`. -/
def strstr (haystack needle : List UInt8) : Option (Option Nat) :=
  needle.head?.bind fun first =>
    if first.toInt8 = 0 then some (some 0) else searchFrom needle 0 haystack

end Stored

section

variable {α : Type*} [DecidableEq α] {needle haystack rest : List α} {first : α} {i : Nat}

theorem firstOccurrence_eq_some_iff : firstOccurrence needle haystack = some i ↔
    needle <+: haystack.drop i ∧ ∀ earlier < i, ¬ needle <+: haystack.drop earlier := by
  simp only [firstOccurrence, List.findIdx?_eq_some_iff_getElem, List.length_tails,
    List.getElem_tails, List.isPrefixOf_iff_prefix]
  constructor
  · rintro ⟨_, here, others⟩
    exact ⟨here, others⟩
  · rintro ⟨here, others⟩
    refine ⟨?_, here, others⟩
    by_contra beyond
    have empty : needle = [] := by
      rw [List.drop_eq_nil_of_le (by omega)] at here
      exact List.prefix_nil.mp here
    exact others 0 (by omega) (empty ▸ List.nil_prefix)

theorem firstOccurrence_eq_none_iff :
    firstOccurrence needle haystack = none ↔ ¬ needle <:+: haystack := by
  rw [firstOccurrence, List.findIdx?_eq_none_iff, List.infix_iff_prefix_suffix]
  simp only [List.mem_tails, not_exists, not_and]
  constructor
  · intro absent tail starts ends
    have nowhere := absent tail ends
    rw [List.isPrefixOf_iff_prefix.mpr starts] at nowhere
    cases nowhere
  · intro absent tail ends
    rw [← Bool.not_eq_true, List.isPrefixOf_iff_prefix]
    exact fun starts => absent tail starts ends

theorem firstOccurrence_cons : firstOccurrence needle (first :: rest) =
    if needle <+: first :: rest then some 0
    else (firstOccurrence needle rest).map fun place => place + 1 := by
  rw [firstOccurrence, List.tails_cons, List.findIdx?_cons]
  by_cases starts : needle <+: first :: rest
  · rw [if_pos starts, if_pos (List.isPrefixOf_iff_prefix.mpr starts)]
  · rw [if_neg starts, if_neg (mt List.isPrefixOf_iff_prefix.mp starts)]
    rfl

end

/-- The inner loop ends at a terminator where `needle` occurs, and there only. -/
theorem skipMatch_stored {haystack needle : List UInt8} (haystackText : (0 : UInt8) ∉ haystack)
    (needleText : (0 : UInt8) ∉ needle) :
    ∃ last left, Stored.skipMatch (haystack ++ [0]) (needle ++ [0]) = some (last :: left) ∧
      (last = 0 ↔ needle <+: haystack) := by
  induction needle generalizing haystack with
  | nil =>
      have ends : Stored.skipMatch (haystack ++ [0]) [0] = some [0] := by
        cases haystack with
        | nil => rfl
        | cons byte haystack => exact if_neg fun goes => goes.1 rfl
      exact ⟨0, [], ends, by simp⟩
  | cons wanted rest ih =>
      have nonzero : wanted ≠ 0 := fun same => needleText (by simp [same])
      cases haystack with
      | nil =>
          have stops : ¬ (wanted.toInt8 ≠ 0 ∧ (0 : UInt8).toInt8 = wanted.toInt8) := fun goes =>
            nonzero (toInt8_inj.mp goes.2).symm
          refine ⟨wanted, rest ++ [0], ?_, by simp [nonzero]⟩
          rw [List.nil_append, List.cons_append, Stored.skipMatch, if_neg stops]
      | cons byte haystack =>
          rw [List.cons_append, List.cons_append, Stored.skipMatch, List.cons_prefix_cons]
          by_cases same : byte = wanted
          · subst same
            rw [if_pos ⟨mt toInt8_eq_zero.mp nonzero, rfl⟩]
            obtain ⟨last, left, ends, found⟩ := @ih haystack
              (fun member => haystackText (by simp [member]))
              fun member => needleText (by simp [member])
            exact ⟨last, left, ends, by simp [found]⟩
          · rw [if_neg fun goes => same (toInt8_inj.mp goes.2)]
            exact ⟨wanted, rest ++ [0], rfl, by simp [nonzero, Ne.symm same]⟩

theorem searchFrom_stored {first : UInt8} {haystack rest : List UInt8} {i : Nat}
    (haystackText : (0 : UInt8) ∉ haystack) (needleText : (0 : UInt8) ∉ first :: rest) :
    Stored.searchFrom ((first :: rest) ++ [0]) i (haystack ++ [0]) =
      some ((firstOccurrence (first :: rest) haystack).map fun place => i + place) := by
  induction haystack generalizing i with
  | nil =>
      have absent : firstOccurrence (first :: rest) [] = none :=
        firstOccurrence_eq_none_iff.mpr (by simp)
      rw [absent]
      rfl
  | cons byte haystack ih =>
      have nonzero : byte ≠ 0 := fun same => haystackText (by simp [same])
      have later := @ih (i + 1) fun member => haystackText (by simp [member])
      have moved : (firstOccurrence (first :: rest) haystack).map (fun place => i + 1 + place) =
          ((firstOccurrence (first :: rest) haystack).map fun place => place + 1).map
            fun place => i + place := by
        rw [Option.map_map]
        congr 1
        funext place
        show i + 1 + place = i + (place + 1)
        omega
      rw [moved] at later
      rw [firstOccurrence_cons, List.cons_append, List.cons_append, Stored.searchFrom,
        if_neg (mt toInt8_eq_zero.mp nonzero), List.head?_cons, Option.bind_some]
      by_cases same : byte = first
      · obtain ⟨last, left, ends, found⟩ := skipMatch_stored haystackText needleText
        rw [List.cons_append, List.cons_append] at ends
        rw [if_neg (not_not.mpr (congrArg UInt8.toInt8 same)), ends, Option.bind_some,
          List.head?_cons, Option.bind_some]
        by_cases occurs : first :: rest <+: byte :: haystack
        · rw [if_pos (toInt8_eq_zero.mpr (found.mpr occurs)), if_pos occurs]
          rfl
        · rw [if_neg (mt (found.mp ∘ toInt8_eq_zero.mp) occurs), if_neg occurs]
          exact later
      · have elsewhere : ¬ first :: rest <+: byte :: haystack := fun occurs =>
          same (List.cons_prefix_cons.mp occurs).1.symm
        rw [if_pos (mt toInt8_inj.mp same), if_neg elsewhere]
        exact later

theorem strstr_stored (haystack needle : CString) :
    Stored.strstr haystack.stored needle.stored =
      some (firstOccurrence needle.val haystack.val) := by
  obtain ⟨haystack, haystackText⟩ := haystack
  obtain ⟨needle, needleText⟩ := needle
  unfold CString.stored
  cases needle with
  | nil =>
      have start : firstOccurrence [] haystack = some 0 :=
        firstOccurrence_eq_some_iff.mpr ⟨List.nil_prefix, by simp⟩
      rw [start]
      rfl
  | cons first rest =>
      have nonzero : first ≠ 0 := fun same => needleText (by simp [same])
      have found := @searchFrom_stored first haystack rest 0 haystackText needleText
      simp only [Nat.zero_add, Option.map_id'] at found
      rw [← found]
      exact if_neg (mt toInt8_eq_zero.mp nonzero)

/-- On any strings `strstr` reads none of the bytes after a terminator, and returns
the first place where `needle` occurs, or `NULL` if there is none. -/
theorem strstr_finds_first (haystack needle : CString) :
    ∃ found, Stored.strstr haystack.stored needle.stored = some found ∧
      (∀ i, found = some i ↔ needle.val <+: haystack.val.drop i ∧
        ∀ earlier < i, ¬ needle.val <+: haystack.val.drop earlier) ∧
      (found = none ↔ ¬ needle.val <:+: haystack.val) ∧
      (needle.val = [] → found = some 0) := by
  refine ⟨firstOccurrence needle.val haystack.val, strstr_stored haystack needle,
    fun _ => firstOccurrence_eq_some_iff, firstOccurrence_eq_none_iff, fun empty => ?_⟩
  rw [empty]
  exact firstOccurrence_eq_some_iff.mpr ⟨List.nil_prefix, by simp⟩

/-- `"aab"` in `"aaab"`, past a match that breaks off. -/
example : Stored.strstr [97, 97, 97, 98, 0] [97, 97, 98, 0] = some (some 1) := by decide

end Helios.Strings
