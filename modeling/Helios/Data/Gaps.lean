import Helios.Data.Layout

namespace Helios.Data

/-! Tilings in which some items are gaps.

A tiling is coalesced when no two neighbouring items are gaps.  Every interval
that meets no solid item then lies in one gap, and the solid items determine
the whole list: any two operations that keep the same solid items and coalesce
agree.
-/

section

variable {α : Type*} {address extent : α → Nat} {gap : α → Prop}
variable {start stop low high : Nat} {item : α} {items others : List α}

/-- No two neighbouring items are gaps. -/
def Coalesced (gap : α → Prop) (items : List α) : Prop :=
  items.IsChain fun left right => ¬ (gap left ∧ gap right)

/-- `[low, high)` meets no solid item. -/
def Unoccupied (address extent : α → Nat) (gap : α → Prop) (items : List α) (low high : Nat) : Prop :=
  ∀ item ∈ items, ¬ gap item → address item + extent item ≤ low ∨ high ≤ address item

theorem Coalesced.tail (coalesced : Coalesced gap (item :: items)) : Coalesced gap items :=
  List.IsChain.tail coalesced

/-- What follows a gap is solid. -/
theorem Coalesced.solid_behind {second : α} (coalesced : Coalesced gap (item :: second :: items))
    (free : gap item) : ¬ gap second := by
  have apart := (List.isChain_cons_cons.mp coalesced).1
  exact fun behind => apart ⟨free, behind⟩

theorem Tiles.gap_of_unoccupied (tiles : Tiles address extent start items stop)
    (coalesced : Coalesced gap items) (lower : start ≤ low) (positive : low < high)
    (upper : high ≤ stop) (unoccupied : Unoccupied address extent gap items low high) :
    ∃ item ∈ items, gap item ∧ address item ≤ low ∧ high ≤ address item + extent item := by
  induction items generalizing start with
  | nil =>
      have ended : start = stop := tiles
      omega
  | cons first rest ih =>
      obtain ⟨place, wide, remaining⟩ := tiles
      by_cases inFirst : low < start + extent first
      · have free : gap first := by
          by_contra solid
          have outside := unoccupied first (by simp) solid
          omega
        refine ⟨first, by simp, free, by omega, ?_⟩
        by_contra across
        cases rest with
        | nil =>
            have ended : start + extent first = stop := remaining
            omega
        | cons second others =>
            have outside := unoccupied second (by simp) (coalesced.solid_behind free)
            obtain ⟨secondPlace, secondWide, _⟩ := remaining
            omega
      · obtain ⟨item, member, free, inside⟩ := ih remaining coalesced.tail (by omega)
          (fun item member => unoccupied item (by simp [member]))
        exact ⟨item, by simp [member], free, inside⟩

/-- The intervals that meet no solid item are those inside one gap. -/
theorem Tiles.unoccupied_iff (tiles : Tiles address extent start items stop)
    (coalesced : Coalesced gap items) (lower : start ≤ low) (positive : low < high)
    (upper : high ≤ stop) :
    Unoccupied address extent gap items low high ↔
      ∃ item ∈ items, gap item ∧ address item ≤ low ∧ high ≤ address item + extent item := by
  constructor
  · exact tiles.gap_of_unoccupied coalesced lower positive upper
  · rintro ⟨item, member, free, left, right⟩ other otherMember solid
    have different : item ≠ other := by
      rintro rfl
      exact solid free
    have apart := tiles.apart member otherMember different
    omega

theorem Tiles.eq_head {first : α} (tiles : Tiles address extent start (first :: items) stop)
    (member : item ∈ first :: items) (place : address item = start) : item = first := by
  cases List.mem_cons.mp member with
  | inl same => exact same
  | inr later =>
      obtain ⟨_, wide, remaining⟩ := tiles
      have behind := remaining.bounds later
      omega

/-- A gap at the head of two coalesced tilings with the same solid items ends
no later in the first than in the second. -/
theorem Tiles.gap_extent_le {first other : α}
    (tiles : Tiles address extent start (first :: items) stop)
    (otherTiles : Tiles address extent start (other :: others) stop)
    (coalesced : Coalesced gap (other :: others)) (otherFree : gap other)
    (same : ∀ item, ¬ gap item → item ∈ other :: others → item ∈ first :: items)
    (free : gap first) : extent first ≤ extent other := by
  by_contra longer
  obtain ⟨place, wide, remaining⟩ := tiles
  obtain ⟨otherPlace, otherWide, otherRemaining⟩ := otherTiles
  have ordered := remaining.start_le_stop
  cases others with
  | nil =>
      have ended : start + extent other = stop := otherRemaining
      omega
  | cons second behind =>
      have solid := coalesced.solid_behind otherFree
      obtain ⟨secondPlace, secondWide, _⟩ := otherRemaining
      have member := same second solid (by simp)
      cases List.mem_cons.mp member with
      | inl head => exact solid (head ▸ free)
      | inr later =>
          have bounds := remaining.bounds later
          omega

/-- Solid items behind the head of one tiling are behind the head of another
with the same head. -/
theorem Tiles.solid_tail {first : α} (tiles : Tiles address extent start (first :: items) stop)
    (same : ∀ item, ¬ gap item → item ∈ first :: items → item ∈ first :: others)
    (solid : ¬ gap item) (member : item ∈ items) : item ∈ others := by
  have inside := same item solid (by simp [member])
  cases List.mem_cons.mp inside with
  | inr later => exact later
  | inl head =>
      obtain ⟨place, wide, remaining⟩ := tiles
      have bounds := remaining.bounds member
      rw [head] at bounds
      omega

/-- A coalesced tiling is determined by its solid items, when a gap is
determined by its address and extent. -/
theorem Tiles.eq_of_solid (tiles : Tiles address extent start items stop)
    (otherTiles : Tiles address extent start others stop) (coalesced : Coalesced gap items)
    (otherCoalesced : Coalesced gap others)
    (determined : ∀ left right, gap left → gap right → address left = address right →
      extent left = extent right → left = right)
    (same : ∀ item, ¬ gap item → (item ∈ items ↔ item ∈ others)) : items = others := by
  induction items generalizing start others with
  | nil =>
      have ended : start = stop := tiles
      cases others with
      | nil => rfl
      | cons other rest =>
          obtain ⟨_, wide, remaining⟩ := otherTiles
          have ordered := remaining.start_le_stop
          omega
  | cons first rest ih =>
      cases others with
      | nil =>
          have ended : start = stop := otherTiles
          obtain ⟨_, wide, remaining⟩ := tiles
          have ordered := remaining.start_le_stop
          omega
      | cons other behind =>
          have heads : first = other := by
            by_cases free : gap first
            · by_cases otherFree : gap other
              · have places : address first = address other := tiles.1.trans otherTiles.1.symm
                have shorter := tiles.gap_extent_le otherTiles otherCoalesced otherFree
                  (fun item solid => (same item solid).mpr) free
                have longer := otherTiles.gap_extent_le tiles coalesced free
                  (fun item solid => (same item solid).mp) otherFree
                exact determined first other free otherFree places (by omega)
              · have member := (same other otherFree).mpr (by simp)
                exact (tiles.eq_head member otherTiles.1).symm
            · have member := (same first free).mp (by simp)
              exact otherTiles.eq_head member tiles.1
          subst heads
          refine congrArg (first :: ·) (ih tiles.2.2 otherTiles.2.2 coalesced.tail
            otherCoalesced.tail fun item solid => ⟨?_, ?_⟩)
          · exact tiles.solid_tail (fun item solid => (same item solid).mp) solid
          · exact otherTiles.solid_tail (fun item solid => (same item solid).mpr) solid

end

end Helios.Data
