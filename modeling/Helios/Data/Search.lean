import Helios.Data.Chain

namespace Helios.Data

/-! Searching a singly linked chain, and editing it at what was found.

The searches run for a given number of steps; on a chain that ends within them
they are the searches of the list of its items.
-/

section

variable {α : Type*} {next after : α → Option α} {found : α → Bool} {head prev : Option α}
variable {item : α} {items front back : List α} {steps : Nat}

/-- The first item of the walk from `head` that is looked for; `none` is a walk
that has not ended. -/
def search (next : α → Option α) (found : α → Bool) : Nat → Option α → Option (Option α)
  | 0, _ => none
  | _ + 1, none => some none
  | steps + 1, some item =>
      if found item then some (some item) else search next found steps (next item)

/-- The same search, with the item before the one that is found. -/
def searchPrev (next : α → Option α) (found : α → Bool) :
    Nat → Option α → Option α → Option (Option (Option α × α))
  | 0, _, _ => none
  | _ + 1, _, none => some none
  | steps + 1, prev, some item =>
      if found item then some (some (prev, item))
      else searchPrev next found steps (some item) (next item)

theorem search_eq (chain : Chain next head items) (enough : items.length < steps) :
    search next found steps head = some (items.find? found) := by
  induction items generalizing head steps with
  | nil =>
      have ended : head = none := chain
      cases steps with
      | zero => cases enough
      | succ steps => simp [search, ended]
  | cons item rest ih =>
      obtain ⟨started, tail⟩ := chain
      cases steps with
      | zero => cases enough
      | succ steps =>
          have shorter : rest.length < steps := by simpa using enough
          cases here : found item with
          | true => simp [search, started, here]
          | false => simp [search, started, here, ih tail shorter]

/-- A search looks at what is linked from `head` alone. -/
theorem search_congr {also : α → Bool}
    (linked : ∀ item, OnChain next head item → after item = next item)
    (same : ∀ item, OnChain next head item → also item = found item) :
    search after also steps head = search next found steps head := by
  induction steps generalizing head with
  | zero => rfl
  | succ steps ih =>
      cases head with
      | none => rfl
      | some item =>
          have here : OnChain next (some item) item := .first rfl
          rw [search, search, same item here, linked item here,
            @ih (next item) (fun other later => linked other (later.cons rfl))
              fun other later => same other (later.cons rfl)]

theorem searchPrev_congr {also : α → Bool}
    (linked : ∀ item, OnChain next head item → after item = next item)
    (same : ∀ item, OnChain next head item → also item = found item) :
    searchPrev after also steps prev head = searchPrev next found steps prev head := by
  induction steps generalizing head prev with
  | zero => rfl
  | succ steps ih =>
      cases head with
      | none => rfl
      | some item =>
          have here : OnChain next (some item) item := .first rfl
          rw [searchPrev, searchPrev, same item here, linked item here,
            @ih (next item) (some item) (fun other later => linked other (later.cons rfl))
              fun other later => same other (later.cons rfl)]

theorem searchPrev_missing (chain : Chain next head items) (enough : items.length < steps)
    (missing : ∀ item ∈ items, found item = false) :
    searchPrev next found steps prev head = some none := by
  induction items generalizing head steps prev with
  | nil =>
      have ended : head = none := chain
      cases steps with
      | zero => cases enough
      | succ steps => simp [searchPrev, ended]
  | cons item rest ih =>
      obtain ⟨started, tail⟩ := chain
      cases steps with
      | zero => cases enough
      | succ steps =>
          have shorter : rest.length < steps := by simpa using enough
          have later := @ih (next item) (some item) steps tail shorter
            (fun other member => missing other (by simp [member]))
          simp [searchPrev, started, missing item (by simp), later]

theorem searchPrev_found (chain : Chain next head (front ++ item :: back))
    (enough : front.length < steps) (here : found item = true)
    (earlier : ∀ item ∈ front, found item = false) :
    searchPrev next found steps prev head = some (some (front.getLast?.or prev, item)) := by
  induction front generalizing head steps prev with
  | nil =>
      cases steps with
      | zero => cases enough
      | succ steps => simp [searchPrev, chain.1, here]
  | cons first rest ih =>
      obtain ⟨started, tail⟩ := chain
      cases steps with
      | zero => cases enough
      | succ steps =>
          have shorter : rest.length < steps := by simpa using enough
          have later := @ih (next first) (some first) steps tail shorter
            (fun other member => earlier other (by simp [member]))
          rw [searchPrev.eq_def]
          simp [started, earlier first (by simp), later, List.getLast?_cons]

theorem Chain.push (chain : Chain next head items) (agree : ∀ item ∈ items, after item = next item)
    (linked : after item = head) : Chain after (some item) (item :: items) := by
  refine ⟨rfl, ?_⟩
  rw [linked]
  exact chain.congr agree

theorem Chain.unlink {last : α} (chain : Chain next head (front ++ last :: item :: back))
    (agree : ∀ other, other ≠ last → after other = next other) (linked : after last = next item) :
    Chain after head (front ++ last :: back) := by
  have distinct := chain.nodup
  rw [List.nodup_middle] at distinct
  have others : ∀ other ∈ front ++ item :: back, after other = next other := by
    intro other member
    apply agree
    intro same
    exact (List.nodup_cons.mp distinct).1 (same ▸ member)
  refine chain.splice (fun other member => others other (by simp [member])) ?_
  rw [linked]
  exact chain.rest.2.congr fun other member => others other (by simp [member])

end

end Helios.Data
