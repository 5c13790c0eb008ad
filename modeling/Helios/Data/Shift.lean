import Mathlib.Tactic

namespace Helios.Data

/-! Copying and filling a stretch of cells, one cell at a time.

The cells are copied upwards in place: each is read before the copy has reached
it, so the stretch ends up with what was a distance behind it.
-/

section

variable {α : Type*}

/-- Copying along a list of indices, one cell after the other. -/
def copyAlong {ι κ : Type*} [DecidableEq κ] (source target : ι → κ) (order : List ι)
    (cells : κ → α) : κ → α :=
  order.foldl (fun cells index => Function.update cells (target index) (cells (source index))) cells

def copyDown (distance start count : Nat) (cells : Nat → α) : Nat → α :=
  (List.range count).foldl
    (fun cells index =>
      Function.update cells (start + index) (cells (start + index + distance))) cells

def fillCells (value : α) (start count : Nat) (cells : Nat → α) : Nat → α :=
  (List.range count).foldl (fun cells index => Function.update cells (start + index) value) cells

section

variable {ι κ : Type*} [DecidableEq κ] {source target : ι → κ} {order : List ι}
variable {cells : κ → α} {index : ι} {cell : κ}

theorem copyAlong_other (outside : ∀ index ∈ order, cell ≠ target index) :
    copyAlong source target order cells cell = cells cell := by
  induction order generalizing cells with
  | nil => rfl
  | cons first rest ih =>
      have later : copyAlong source target rest
          (Function.update cells (target first) (cells (source first))) cell =
          Function.update cells (target first) (cells (source first)) cell :=
        ih fun index member => outside index (by simp [member])
      exact later.trans (Function.update_of_ne (outside first (by simp)) _ _)

/-- The cells arrive as they were, in any order of copying in which no cell is
written before it has been read, and none is written twice. -/
theorem copyAlong_target
    (safe : order.Pairwise fun earlier later =>
      target earlier ≠ source later ∧ target earlier ≠ target later)
    (member : index ∈ order) :
    copyAlong source target order cells (target index) = cells (source index) := by
  induction order generalizing cells with
  | nil => cases member
  | cons first rest ih =>
      obtain ⟨apart, safe⟩ := List.pairwise_cons.mp safe
      rcases List.mem_cons.mp member with rfl | member
      · have kept : copyAlong source target rest
            (Function.update cells (target index) (cells (source index))) (target index) =
            Function.update cells (target index) (cells (source index)) (target index) :=
          copyAlong_other fun later member => (apart later member).2
        exact kept.trans (Function.update_self _ _ _)
      · have moved : copyAlong source target rest
            (Function.update cells (target first) (cells (source first))) (target index) =
            Function.update cells (target first) (cells (source first)) (source index) :=
          ih safe member
        exact moved.trans (Function.update_of_ne (apart index member).1.symm _ _)

end

variable {distance start count : Nat} {cells : Nat → α} {value : α}

theorem copyDown_apply (positive : 0 < distance) (cell : Nat) :
    copyDown distance start count cells cell =
      if start ≤ cell ∧ cell < start + count then cells (cell + distance) else cells cell := by
  have along : copyDown distance start count cells =
      copyAlong (fun index => start + index + distance) (fun index => start + index)
        (List.range count) cells := rfl
  rw [along]
  by_cases inside : start ≤ cell ∧ cell < start + count
  · obtain ⟨index, rfl⟩ := Nat.exists_eq_add_of_le inside.1
    rw [if_pos inside]
    exact copyAlong_target
      (List.pairwise_lt_range.imp fun {earlier later} before => ⟨by omega, by omega⟩)
      (List.mem_range.mpr (by omega))
  · rw [if_neg inside]
    exact copyAlong_other fun index member => by
      have small := List.mem_range.mp member
      omega

theorem fillCells_apply (cell : Nat) : fillCells value start count cells cell =
    if start ≤ cell ∧ cell < start + count then value else cells cell := by
  induction count generalizing cell with
  | zero => rw [if_neg (by omega)]; rfl
  | succ count ih =>
      have last : fillCells value start (count + 1) cells =
          Function.update (fillCells value start count cells) (start + count) value := by
        simp only [fillCells, List.range_succ, List.foldl_append, List.foldl_cons, List.foldl_nil]
      rw [last]
      by_cases here : cell = start + count
      · subst here
        rw [Function.update_self, if_pos (by omega)]
      · rw [Function.update_of_ne here, ih]
        by_cases inside : start ≤ cell ∧ cell < start + count
        · rw [if_pos inside, if_pos (by omega)]
        · rw [if_neg inside, if_neg (by omega)]

/-- Row after row is copied from the row below it. -/
def copyRows (width rows : Nat) (cells : Nat → α) : Nat → α :=
  (List.range rows).foldl (fun cells row => copyDown width (row * width) width cells) cells

theorem copyRows_apply {width rows : Nat} (positive : 0 < width) (cell : Nat) :
    copyRows width rows cells cell =
      if cell < rows * width then cells (cell + width) else cells cell := by
  induction rows generalizing cell with
  | zero => rw [if_neg (by omega)]; rfl
  | succ rows ih =>
      have last : copyRows width (rows + 1) cells =
          copyDown width (rows * width) width (copyRows width rows cells) := by
        simp only [copyRows, List.range_succ, List.foldl_append, List.foldl_cons, List.foldl_nil]
      have stretch : (rows + 1) * width = rows * width + width := Nat.succ_mul rows width
      rw [last, copyDown_apply positive, stretch]
      by_cases reached : rows * width ≤ cell ∧ cell < rows * width + width
      · rw [if_pos reached, ih, if_neg (by omega), if_pos reached.2]
      · rw [if_neg reached, ih]
        by_cases before : cell < rows * width
        · rw [if_pos before, if_pos (by omega)]
        · rw [if_neg before, if_neg (by omega)]

end

end Helios.Data
