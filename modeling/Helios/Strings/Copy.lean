import Helios.Data.Cpu
import Helios.Data.Shift

namespace Helios.Strings

open Helios.Data

/-! `strcpy` of `string.c`, wherever its arguments point.

The loop ends at the terminator, which the copy itself may overwrite. -/

/-- The loop, for as many bytes as there is fuel. -/
def strcpy : Nat → Store → Word → Word → Option Store
  | 0, _, _, _ => none
  | fuel + 1, store, d, s =>
      let byte := store s
      let store := Function.update store d byte
      if byte = 0 then some store else strcpy fuel store (d + 1) (s + 1)

/-- A text of some length in memory, with its terminator. -/
structure TextAt (store : Store) (src : Word) (length : Nat) : Prop where
  bytes : ∀ index < length, store (src + BitVec.ofNat 32 index) ≠ 0
  terminator : store (src + BitVec.ofNat 32 length) = 0
  fits : length < 2 ^ 32

/-- Memory after the copy of a number of bytes. -/
def copied (store : Store) (dest src : Word) (count : Nat) : Store :=
  copyAlong (fun index => src + BitVec.ofNat 32 index) (fun index => dest + BitVec.ofNat 32 index)
    (List.range count) store

section

variable {store final : Store} {dest src position : Word} {length fuel count index : Nat}

theorem next_address (base : Word) (index : Nat) :
    base + BitVec.ofNat 32 index + 1 = base + BitVec.ofNat 32 (index + 1) := by
  rw [BitVec.ofNat_add, BitVec.add_assoc]
  rfl

/-- The bytes up to the destination stay without a terminator: the copy carries
the text before it. -/
theorem strcpy_endless (ahead : 0 < (dest - src).toNat)
    (text : ∀ index < (dest - src).toNat, store (src + BitVec.ofNat 32 index) ≠ 0) :
    strcpy fuel store dest src = none := by
  induction fuel generalizing store dest src with
  | zero => rfl
  | succ fuel ih =>
      have here : store src ≠ 0 := by simpa using text 0 ahead
      have same : dest + 1 - (src + 1) = dest - src := by bv_omega
      rw [strcpy, if_neg here]
      refine ih (by rwa [same]) fun index inside => ?_
      rw [same] at inside
      rw [Function.update_apply]
      split
      case isTrue => exact here
      case isFalse other =>
        have later : src + 1 + BitVec.ofNat 32 index = src + BitVec.ofNat 32 (index + 1) := by
          rw [BitVec.ofNat_add]
          bv_omega
        rw [later] at other ⊢
        refine text (index + 1) ?_
        have notLast : index + 1 ≠ (dest - src).toNat := by
          intro last
          refine other ?_
          rw [last, BitVec.ofNat_toNat, BitVec.setWidth_eq]
          bv_omega
        omega

/-- The copy has not come to the bytes that are still to be read. -/
theorem unread (apart : (dest - src).toNat = 0 ∨ length < (dest - src).toNat) {earlier later : Nat}
    (ordered : earlier < later) (inside : later ≤ length) (fits : length < 2 ^ 32) :
    dest + BitVec.ofNat 32 earlier ≠ src + BitVec.ofNat 32 later := by
  intro same
  have distance : dest - src = BitVec.ofNat 32 later - BitVec.ofNat 32 earlier := by bv_omega
  rw [distance, BitVec.toNat_sub, BitVec.toNat_ofNat, BitVec.toNat_ofNat] at apart
  omega

theorem copied_unread (apart : (dest - src).toNat = 0 ∨ length < (dest - src).toNat)
    (inside : index ≤ length) (fits : length < 2 ^ 32) :
    copied store dest src index (src + BitVec.ofNat 32 index) =
      store (src + BitVec.ofNat 32 index) :=
  copyAlong_other fun _ member same =>
    unread apart (List.mem_range.mp member) inside fits same.symm

theorem copied_succ : copied store dest src (count + 1) =
    Function.update (copied store dest src count) (dest + BitVec.ofNat 32 count)
      (copied store dest src count (src + BitVec.ofNat 32 count)) := by
  rw [copied, copyAlong, List.range_succ, List.foldl_append]
  rfl

/-- The loop from any place in the text on. -/
theorem strcpy_from (text : TextAt store src length)
    (apart : (dest - src).toNat = 0 ∨ length < (dest - src).toNat) {rest : Nat}
    (split : index + rest = length) :
    strcpy (rest + 1) (copied store dest src index) (dest + BitVec.ofNat 32 index)
      (src + BitVec.ofNat 32 index) = some (copied store dest src (length + 1)) := by
  induction rest generalizing index with
  | zero =>
      obtain rfl : index = length := by omega
      have last := (copied_unread apart le_rfl text.fits).trans text.terminator
      rw [strcpy, if_pos last, copied_succ]
  | succ rest ih =>
      have more : copied store dest src index (src + BitVec.ofNat 32 index) ≠ 0 := by
        rw [copied_unread apart (by omega) text.fits]
        exact text.bytes index (by omega)
      have next := @ih (index + 1) (by omega)
      rw [strcpy, if_neg more, next_address, next_address, ← copied_succ]
      exact next

theorem strcpy_more (result : strcpy fuel store dest src = some final) (more : Nat) :
    strcpy (fuel + more) store dest src = some final := by
  induction fuel generalizing store dest src with
  | zero => cases result
  | succ fuel ih =>
      rw [Nat.add_right_comm]
      rw [strcpy] at result ⊢
      split at result
      case isTrue last => exact (if_pos last).trans result
      case isFalse other => exact (if_neg other).trans (ih result)

/-- `strcpy` returns if and only if the destination is not among the bytes of the
text behind its first one, the terminator among them.  Then the destination gets
the text, as it was, and its terminator, and nothing else changes. -/
theorem strcpy_returns_iff (text : TextAt store src length) :
    ((∃ fuel final, strcpy fuel store dest src = some final) ↔
      (dest - src).toNat = 0 ∨ length < (dest - src).toNat) ∧
    ∀ fuel final, strcpy fuel store dest src = some final →
      (∀ index ≤ length, final (dest + BitVec.ofNat 32 index) =
        store (src + BitVec.ofNat 32 index)) ∧
      ∀ position, (∀ index ≤ length, position ≠ dest + BitVec.ofNat 32 index) →
        final position = store position := by
  have ends : ∀ fuel final, strcpy fuel store dest src = some final →
      (dest - src).toNat = 0 ∨ length < (dest - src).toNat := by
    intro fuel final result
    by_contra inside
    have endless : strcpy fuel store dest src = none :=
      strcpy_endless (by omega) fun index before => text.bytes index (by omega)
    rw [endless] at result
    cases result
  have returns : (dest - src).toNat = 0 ∨ length < (dest - src).toNat →
      strcpy (length + 1) store dest src = some (copied store dest src (length + 1)) := by
    intro apart
    have start := @strcpy_from _ _ _ _ 0 text apart _ (Nat.zero_add length)
    rw [BitVec.add_zero, BitVec.add_zero] at start
    exact start
  refine ⟨⟨fun ⟨fuel, final, result⟩ => ends fuel final result, fun apart => ⟨_, _, returns apart⟩⟩,
    fun fuel final result => ?_⟩
  have apart := ends fuel final result
  have longer := strcpy_more (returns apart) fuel
  rw [Nat.add_comm, strcpy_more result] at longer
  obtain rfl : final = copied store dest src (length + 1) := Option.some.inj longer
  have fits := text.fits
  constructor
  · intro index inside
    refine copyAlong_target ?_ (List.mem_range.mpr (by omega))
    refine (List.pairwise_lt_range.imp_of_mem fun {earlier later} _ member ordered => ?_)
    have last := List.mem_range.mp member
    refine ⟨unread apart ordered (by omega) fits, fun same => ?_⟩
    have value := congrArg BitVec.toNat ((BitVec.add_right_inj _).mp same)
    rw [BitVec.toNat_ofNat, BitVec.toNat_ofNat] at value
    omega
  · intro position outside
    refine copyAlong_other fun index member => outside index ?_
    have last := List.mem_range.mp member
    omega

/-- A text moved one byte down, and the same text moved one byte up. -/
theorem strcpy_returns_iff_moved :
    let store : Store := fun position => if position.toNat < 3 then 97 else 0
    (∃ fuel final, strcpy fuel store (-1) 0 = some final) ∧
      ¬∃ fuel final, strcpy fuel store 1 0 = some final := by
  intro store
  have text : TextAt store 0 3 := ⟨by decide, by decide, by decide⟩
  exact ⟨(strcpy_returns_iff text).1.mpr (by decide),
    fun returned => absurd ((strcpy_returns_iff text).1.mp returned) (by decide)⟩

end

end Helios.Strings
