import Mathlib.Tactic

namespace Helios.Data

/-! Singly linked chains threaded through a successor function.

The chain is the list of items met from `head` on; it exists exactly when the
walk ends.  An operation that redirects the successor of one item is proved by
agreement of the old and the new successor function on the rest of the list.
-/

section

variable {α : Type*} {next after : α → Option α} {head : Option α}
variable {item fresh : α} {items others : List α}

def Chain (next : α → Option α) : Option α → List α → Prop
  | head, [] => head = none
  | head, item :: rest => head = some item ∧ Chain next (next item) rest

/-- The items linked from `head`, whether or not the walk ends. -/
inductive OnChain (next : α → Option α) (head : Option α) : α → Prop
  | first {item : α} (start : head = some item) : OnChain next head item
  | next {item following : α} (earlier : OnChain next head item)
      (linked : next item = some following) : OnChain next head following

/-- The last item of the walk from `item`, if it is met within the given steps. -/
def chainEnd (next : α → Option α) : Nat → α → Option α
  | 0, _ => none
  | steps + 1, item =>
      match next item with
      | none => some item
      | some following => chainEnd next steps following

theorem Chain.unique (left : Chain next head items) (right : Chain next head others) :
    items = others := by
  induction items generalizing head others with
  | nil =>
      cases others with
      | nil => rfl
      | cons other rest =>
          obtain ⟨started, _⟩ := right
          have ended : head = none := left
          simp [ended] at started
  | cons item rest ih =>
      obtain ⟨started, tail⟩ := left
      cases others with
      | nil =>
          have ended : head = none := right
          simp [ended] at started
      | cons other others =>
          obtain ⟨otherStarted, otherTail⟩ := right
          have same : item = other := Option.some.inj (started.symm.trans otherStarted)
          subst other
          rw [ih tail otherTail]

theorem Chain.eq_nil (chain : Chain next none items) : items = [] := by
  cases items with
  | nil => rfl
  | cons item rest => cases chain.1

theorem Chain.head_eq (chain : Chain next head items) : head = items.head? := by
  cases items with
  | nil => exact chain
  | cons item rest => exact chain.1

theorem Chain.suffix {front : List α} (chain : Chain next head (front ++ items)) :
    ∃ middle, Chain next middle items := by
  induction front generalizing head with
  | nil => exact ⟨head, chain⟩
  | cons first rest ih => exact ih chain.2

/-- A walk that ends meets no item twice. -/
theorem Chain.nodup (chain : Chain next head items) : items.Nodup := by
  induction items generalizing head with
  | nil => exact .nil
  | cons item rest ih =>
      obtain ⟨_, tail⟩ := chain
      refine List.nodup_cons.mpr ⟨fun repeated => ?_, ih tail⟩
      obtain ⟨front, back, shape⟩ := List.append_of_mem repeated
      rw [shape] at tail
      obtain ⟨_, started, again⟩ := tail.suffix
      have same : back = front ++ item :: back := again.unique tail
      have lengths := congrArg List.length same
      simp only [List.length_append, List.length_cons] at lengths
      omega

theorem Chain.congr (chain : Chain next head items)
    (agree : ∀ item ∈ items, after item = next item) : Chain after head items := by
  induction items generalizing head with
  | nil => exact chain
  | cons item rest ih =>
      obtain ⟨started, tail⟩ := chain
      refine ⟨started, ?_⟩
      rw [agree item (by simp)]
      exact ih tail (fun other member => agree other (by simp [member]))

theorem Chain.splice {replaced : List α} (chain : Chain next head (items ++ item :: others))
    (agree : ∀ item ∈ items, after item = next item)
    (tail : Chain after (after item) replaced) : Chain after head (items ++ item :: replaced) := by
  induction items generalizing head with
  | nil => exact ⟨chain.1, tail⟩
  | cons first rest ih =>
      obtain ⟨started, later⟩ := chain
      refine ⟨started, ?_⟩
      rw [agree first (by simp)]
      exact ih later (fun other member => agree other (by simp [member]))

theorem Chain.snoc {last : α} (chain : Chain next head (items ++ [last]))
    (agree : ∀ item ∈ items, after item = next item)
    (linked : after last = some fresh) (ended : after fresh = none) :
    Chain after head (items ++ [last] ++ [fresh]) := by
  have extended : Chain after head (items ++ last :: [fresh]) :=
    chain.splice agree ⟨linked, ended⟩
  simpa using extended

theorem OnChain.cons (started : head = some item) (linked : OnChain next (next item) fresh) :
    OnChain next head fresh := by
  induction linked with
  | first link => exact .next (.first started) link
  | next _ link ih => exact .next ih link

theorem Chain.mem_iff (chain : Chain next head items) : OnChain next head item ↔ item ∈ items := by
  constructor
  · intro linked
    induction linked with
    | first started =>
        cases items with
        | nil =>
            have ended : head = none := chain
            simp [ended] at started
        | cons other rest =>
            have same := Option.some.inj (chain.1.symm.trans started)
            simp [same]
    | next earlier step ih =>
        obtain ⟨front, back, shape⟩ := List.append_of_mem ih
        subst shape
        obtain ⟨_, _, tail⟩ := chain.suffix
        cases back with
        | nil =>
            have ended : next _ = none := tail
            simp [ended] at step
        | cons other rest =>
            have same := Option.some.inj (tail.1.symm.trans step)
            simp [same]
  · intro member
    induction items generalizing head with
    | nil => simp at member
    | cons other rest ih =>
        obtain ⟨started, tail⟩ := chain
        cases List.mem_cons.mp member with
        | inl same => exact .first (same ▸ started)
        | inr later => exact .cons started (ih tail later)

theorem Chain.last_link {last : α} (chain : Chain next head items)
    (ending : items.getLast? = some last) : next last = none := by
  induction items generalizing head with
  | nil => cases ending
  | cons item rest ih =>
      obtain ⟨_, tail⟩ := chain
      cases rest with
      | nil =>
          have same : item = last := by simpa using ending
          exact same ▸ tail
      | cons following others => exact ih tail (by simpa using ending)

theorem Chain.cut (chain : Chain next head (items ++ item :: others))
    (agree : ∀ item ∈ items, after item = next item) (ended : after item = none) :
    Chain after head (items ++ [item]) :=
  chain.splice agree ended

theorem Chain.rest (chain : Chain next head (items ++ item :: others)) :
    Chain next (next item) others := by
  obtain ⟨_, _, tail⟩ := chain.suffix
  exact tail

theorem Chain.onChain (chain : Chain next head (items ++ item :: others))
    (agree : ∀ item ∈ items, after item = next item) : OnChain after head item := by
  induction items generalizing head with
  | nil => exact .first chain.1
  | cons first rest ih =>
      obtain ⟨started, tail⟩ := chain
      refine .cons started ?_
      rw [agree first (by simp)]
      exact ih tail (fun other member => agree other (by simp [member]))

theorem Chain.not_self (chain : Chain next head items) (member : item ∈ items) :
    next item ≠ some item := by
  intro loop
  obtain ⟨front, back, shape⟩ := List.append_of_mem member
  subst shape
  obtain ⟨middle, rest⟩ := chain.suffix
  have distinct := rest.nodup
  obtain ⟨_, tail⟩ := rest
  cases back with
  | nil =>
      have ended : next item = none := tail
      rw [loop] at ended
      cases ended
  | cons following others =>
      have same := Option.some.inj (tail.1.symm.trans loop)
      simp [same] at distinct

theorem chainEnd_eq {steps : Nat} (chain : Chain next (some item) items)
    (enough : items.length ≤ steps) : chainEnd next steps item = items.getLast? := by
  induction items generalizing item steps with
  | nil => simp [Chain] at chain
  | cons first rest ih =>
      obtain ⟨started, tail⟩ := chain
      have same := Option.some.inj started
      subst same
      cases steps with
      | zero => simp at enough
      | succ steps =>
          cases rest with
          | nil =>
              have ended : next item = none := tail
              simp [chainEnd, ended]
          | cons second others =>
              have linked := tail.1
              rw [linked] at tail
              have shorter : (second :: others).length ≤ steps := by simpa using enough
              simp only [chainEnd, linked, ih tail shorter, List.getLast?_cons_cons]

end

end Helios.Data
