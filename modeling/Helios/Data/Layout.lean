import Mathlib.Tactic

namespace Helios.Data

/-! Lists of items laid out in memory.

`Tiles` says that the extents of a list of items cover an interval without gaps
and in increasing order; `Linked` says that every item of the list stands in a
given relation to the addresses of its two neighbours.  Both split over list
concatenation, so an operation on one item is proved by cutting the list there.
-/

section

variable {α : Type*} {address extent : α → Nat}

def Tiles (address extent : α → Nat) : Nat → List α → Nat → Prop
  | start, [], stop => start = stop
  | start, item :: rest, stop =>
      address item = start ∧ 0 < extent item ∧ Tiles address extent (start + extent item) rest stop

variable {start stop : Nat} {item other : α} {items before after : List α}

theorem tiles_append :
    Tiles address extent start (before ++ after) stop ↔
      ∃ middle, Tiles address extent start before middle ∧
        Tiles address extent middle after stop := by
  induction before generalizing start with
  | nil => simp [Tiles]
  | cons first rest ih =>
      simp only [List.cons_append, Tiles, ih]
      constructor
      · rintro ⟨place, positive, middle, left, right⟩
        exact ⟨middle, ⟨place, positive, left⟩, right⟩
      · rintro ⟨middle, ⟨place, positive, left⟩, right⟩
        exact ⟨place, positive, middle, left, right⟩

theorem Tiles.start_le_stop (tiles : Tiles address extent start items stop) : start ≤ stop := by
  induction items generalizing start with
  | nil => exact Nat.le_of_eq tiles
  | cons first rest ih =>
      obtain ⟨_, _, remaining⟩ := tiles
      have := ih remaining
      omega

theorem Tiles.bounds (tiles : Tiles address extent start items stop) (member : item ∈ items) :
    start ≤ address item ∧ address item + extent item ≤ stop := by
  induction items generalizing start with
  | nil => simp at member
  | cons first rest ih =>
      obtain ⟨place, positive, remaining⟩ := tiles
      rcases List.mem_cons.mp member with rfl | later
      · exact ⟨by omega, by have := remaining.start_le_stop; omega⟩
      · have := ih remaining later
        exact ⟨by omega, this.2⟩

theorem Tiles.positive (tiles : Tiles address extent start items stop) (member : item ∈ items) :
    0 < extent item := by
  induction items generalizing start with
  | nil => simp at member
  | cons first rest ih =>
      obtain ⟨_, positive, remaining⟩ := tiles
      rcases List.mem_cons.mp member with rfl | later
      · exact positive
      · exact ih remaining later

/-- Cutting a tiling at one item bounds everything before and after it. -/
theorem Tiles.around (tiles : Tiles address extent start (before ++ item :: after) stop) :
    (∀ earlier ∈ before, start ≤ address earlier ∧
        address earlier + extent earlier ≤ address item) ∧
      (∀ later ∈ after, address item + extent item ≤ address later ∧
        address later + extent later ≤ stop) := by
  obtain ⟨middle, left, place, _, right⟩ := tiles_append.mp tiles
  constructor
  · intro earlier member
    have := left.bounds member
    omega
  · intro later member
    have := right.bounds member
    omega

/-- An item is apart from everything before and after it. -/
theorem Tiles.beside (tiles : Tiles address extent start (before ++ item :: after) stop)
    (member : other ∈ before ++ after) :
    address other + extent other ≤ address item ∨ address item + extent item ≤ address other := by
  obtain ⟨earlier, later⟩ := tiles.around
  cases List.mem_append.mp member with
  | inl left => exact .inl (earlier other left).2
  | inr right => exact .inr (later other right).1

/-- Two different items of a tiling have disjoint extents. -/
theorem Tiles.apart (tiles : Tiles address extent start items stop)
    (member : item ∈ items) (otherMember : other ∈ items) (different : item ≠ other) :
    address item + extent item ≤ address other ∨ address other + extent other ≤ address item := by
  obtain ⟨before, after, rfl⟩ := List.append_of_mem member
  have stays : other ∈ before ++ after := by simpa [Ne.symm different] using otherMember
  exact (tiles.beside stays).symm

end

section

variable {α : Type*} {address : α → Nat} {node changed : α → Nat → Nat → Prop}
variable {previous following : Nat} {items before after : List α}

/-- Address of the first item, or what comes after an empty list. -/
def headAddress (address : α → Nat) : List α → Nat → Nat
  | [], following => following
  | item :: _, _ => address item

/-- Address of the last item, or what comes before an empty list. -/
def lastAddress (address : α → Nat) : Nat → List α → Nat
  | previous, [] => previous
  | _, item :: rest => lastAddress address (address item) rest

/-- Every item is related to the addresses of its two neighbours; `previous` and
`following` stand at the ends. -/
def Linked (node : α → Nat → Nat → Prop) (address : α → Nat) : Nat → List α → Nat → Prop
  | _, [], _ => True
  | previous, item :: rest, following =>
      node item previous (headAddress address rest following) ∧
        Linked node address (address item) rest following

theorem lastAddress_append_singleton (item : α) :
    lastAddress address previous (before ++ [item]) = address item := by
  induction before generalizing previous with
  | nil => rfl
  | cons first rest ih => exact ih

theorem headAddress_append :
    headAddress address (before ++ after) following =
      headAddress address before (headAddress address after following) := by
  cases before <;> rfl

theorem linked_append :
    Linked node address previous (before ++ after) following ↔
      Linked node address previous before (headAddress address after following) ∧
        Linked node address (lastAddress address previous before) after following := by
  induction before generalizing previous with
  | nil => simp [Linked, lastAddress]
  | cons first rest ih =>
      simp only [List.cons_append, Linked, lastAddress, ih, headAddress_append, and_assoc]

theorem Linked.imp (linked : Linked node address previous items following)
    (kept : ∀ item ∈ items, ∀ left right, node item left right → changed item left right) :
    Linked changed address previous items following := by
  induction items generalizing previous with
  | nil => trivial
  | cons first rest ih =>
      obtain ⟨head, tail⟩ := linked
      exact ⟨kept first (by simp) _ _ head,
        ih tail (fun item member => kept item (by simp [member]))⟩

end

end Helios.Data
