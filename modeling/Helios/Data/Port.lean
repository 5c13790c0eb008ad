import Mathlib.Tactic

namespace Helios.Data

/-! Programs that talk to a device through ports.

A run is given the answers of the device, one for each read.  It returns what
it has read and written, and, unless it is still waiting for an answer, its
value and the answers that are left.  The answers may end anywhere, so a
statement about the accesses of every run covers the runs that never end. -/

inductive Access where
  | inb (port : Nat)
  | inw (port : Nat)
  | outb (port value : Nat)
  | outw (port value : Nat)
deriving Repr, DecidableEq

def Access.port : Access → Nat
  | .inb port => port
  | .inw port => port
  | .outb port _ => port
  | .outw port _ => port

structure Trace (α : Type) where
  log : List Access
  result : Option (α × List Nat)

def Port (α : Type) : Type := List Nat → Trace α

namespace Port

variable {α β : Type}

def pure (value : α) : Port α := fun answers => ⟨[], some (value, answers)⟩

def bind (program : Port α) (next : α → Port β) : Port β := fun answers =>
  match (program answers).result with
  | none => ⟨(program answers).log, none⟩
  | some (value, rest) =>
      ⟨(program answers).log ++ (next value rest).log, (next value rest).result⟩

instance : Monad Port where
  pure := Port.pure
  bind := Port.bind

def outb (port value : Nat) : Port Unit := fun answers => ⟨[.outb port value], some ((), answers)⟩

def outw (port value : Nat) : Port Unit := fun answers => ⟨[.outw port value], some ((), answers)⟩

def inb (port : Nat) : Port Nat
  | [] => ⟨[.inb port], none⟩
  | answer :: rest => ⟨[.inb port], some (answer % 256, rest)⟩

def inw (port : Nat) : Port Nat
  | [] => ⟨[.inw port], none⟩
  | answer :: rest => ⟨[.inw port], some (answer % 65536, rest)⟩

/-- Read a port again while what it answers satisfies a test. -/
def pollWhile (port : Nat) (test : Nat → Bool) : Port Unit
  | [] => ⟨[.inb port], none⟩
  | answer :: rest =>
      if test (answer % 256) then
        ⟨.inb port :: (pollWhile port test rest).log, (pollWhile port test rest).result⟩
      else ⟨[.inb port], some ((), rest)⟩

/-- While the state asks for it, read a port and take the answer in; a pass may
also end the loop. -/
def readWhile {σ : Type} (port : Nat) (more : σ → Bool) (pass : σ → Nat → σ × Bool) : σ → Port σ
  | state, [] => if more state then ⟨[.inb port], none⟩ else ⟨[], some (state, [])⟩
  | state, answer :: rest =>
      if more state then
        let next := pass state (answer % 256)
        if next.2 then ⟨[.inb port], some (next.1, rest)⟩
        else
          ⟨.inb port :: (readWhile port more pass next.1 rest).log,
            (readWhile port more pass next.1 rest).result⟩
      else ⟨[], some (state, answer :: rest)⟩

/-- The state of such a loop when it ends or waits for the next answer. -/
def readState {σ : Type} (more : σ → Bool) (pass : σ → Nat → σ × Bool) : σ → List Nat → σ
  | state, [] => state
  | state, answer :: rest =>
      if more state then
        let next := pass state (answer % 256)
        if next.2 then next.1 else readState more pass next.1 rest
      else state

def times : Nat → Port Unit → Port Unit
  | 0, _ => pure ()
  | count + 1, body => bind body fun _ => times count body

/-- The passes of an endless loop, as many as there is fuel for; a pass may also
end the loop. -/
def passes {σ : Type} (pass : σ → Port (σ × Bool)) : Nat → σ → Port σ
  | 0, _ => fun _ => ⟨[], none⟩
  | fuel + 1, state => bind (pass state) fun next =>
      if next.2 then pure next.1 else passes pass fuel next.1

/-- An endless loop each pass of which takes an answer: there are no more passes
than answers. -/
def loop {σ : Type} (pass : σ → Port (σ × Bool)) (state : σ) : Port σ := fun answers =>
  passes pass (answers.length + 1) state answers

/-- A state at the head of such a loop, with the answers read so far. -/
inductive Head {σ : Type} (pass : σ → Port (σ × Bool)) (start : σ) : List Nat → σ → Prop
  | first : Head pass start [] start
  | again {read answers : List Nat} {state next : σ} : Head pass start read state →
      (pass state answers).result = some ((next, false), []) →
      Head pass start (read ++ answers) next

/-- A run of the program that has a value has taken an answer. -/
def Takes (program : Port α) : Prop :=
  ∀ answers value rest, (program answers).result = some (value, rest) →
    rest.length < answers.length

variable {program : Port α} {next : α → Port β} {answers rest : List Nat} {value : α}
variable {port : Nat} {permitted : Access → Prop}

theorem bind_eq : (program >>= next) = program.bind next := rfl

theorem bind_finished (finished : (program answers).result = some (value, rest)) :
    (program >>= next) answers =
      ⟨(program answers).log ++ (next value rest).log, (next value rest).result⟩ := by
  rw [bind_eq, bind, finished]

theorem bind_waiting (waiting : (program answers).result = none) :
    (program >>= next) answers = ⟨(program answers).log, none⟩ := by
  rw [bind_eq, bind, waiting]

theorem bind_assoc {γ : Type} {last : β → Port γ} :
    ((program >>= next) >>= last) = program >>= fun value => next value >>= last := by
  funext answers
  cases result : (program answers).result with
  | none =>
      rw [bind_waiting result, bind_waiting (by rw [bind_waiting result]), bind_waiting result]
  | some pair =>
      obtain ⟨value, rest⟩ := pair
      rw [bind_finished result]
      cases later : (next value rest).result with
      | none =>
          have waiting : ((program >>= next) answers).result = none := by
            rw [bind_finished result]
            exact later
          rw [bind_waiting waiting, bind_waiting later, bind_finished result]
      | some final =>
          obtain ⟨middle, remaining⟩ := final
          have finished : ((program >>= next) answers).result = some (middle, remaining) := by
            rw [bind_finished result]
            exact later
          rw [bind_finished finished, bind_finished later, bind_finished result, List.append_assoc]

theorem pure_bind {next : α → Port β} : (Pure.pure value : Port α) >>= next = next value :=
  rfl

theorem ite_bind {condition : Prop} [Decidable condition] {other : Port α} :
    (if condition then program else other) >>= next =
      if condition then program >>= next else other >>= next := by
  split
  · rfl
  · rfl

theorem outb_bind {byte : Nat} {next : Unit → Port β} :
    (outb port byte >>= next) answers =
      ⟨.outb port byte :: (next () answers).log, (next () answers).result⟩ :=
  bind_finished rfl

theorem times_succ {body : Port Unit} {count : Nat} :
    times (count + 1) body = body >>= fun _ => times count body := rfl

theorem mem_bind_log {access : Access} (member : access ∈ (program answers).log) :
    access ∈ ((program >>= next) answers).log := by
  cases result : (program answers).result with
  | none =>
      rw [bind_waiting result]
      exact member
  | some pair =>
      obtain ⟨value, rest⟩ := pair
      rw [bind_finished result]
      exact List.mem_append_left _ member

theorem readWhile_idle {σ : Type} {more : σ → Bool} {pass : σ → Nat → σ × Bool} {state : σ}
    (idle : more state = false) :
    readWhile port more pass state answers = ⟨[], some (state, answers)⟩ := by
  cases answers with
  | nil => rw [readWhile, if_neg (by simp [idle])]
  | cons answer rest => rw [readWhile, if_neg (by simp [idle])]

theorem readWhile_left {σ : Type} {more : σ → Bool} {pass : σ → Nat → σ × Bool} {state final : σ}
    (finished : (readWhile port more pass state answers).result = some (final, rest)) :
    rest.length + (if more state then 1 else 0) ≤ answers.length := by
  induction answers generalizing state with
  | nil =>
      rw [readWhile] at finished
      by_cases asked : more state
      · rw [if_pos asked] at finished
        cases finished
      · rw [if_neg asked] at finished ⊢
        cases finished
        exact le_rfl
  | cons answer others ih =>
      rw [readWhile] at finished
      by_cases asked : more state
      · rw [if_pos asked] at finished ⊢
        simp only at finished
        split at finished
        · cases finished
          exact le_rfl
        · have later := ih finished
          rw [List.length_cons]
          omega
      · rw [if_neg asked] at finished ⊢
        cases finished
        exact le_rfl

theorem readWhile_state {σ : Type} {more : σ → Bool} {pass : σ → Nat → σ × Bool} {state final : σ}
    (finished : (readWhile port more pass state answers).result = some (final, rest)) :
    final = readState more pass state answers := by
  induction answers generalizing state with
  | nil =>
      rw [readWhile] at finished
      split at finished
      · cases finished
      · cases finished
        rfl
  | cons answer others ih =>
      rw [readWhile] at finished
      rw [readState]
      by_cases asked : more state
      · rw [if_pos asked] at finished ⊢
        simp only at finished ⊢
        by_cases leaves : (pass state (answer % 256)).2
        · rw [if_pos leaves] at finished ⊢
          cases finished
          rfl
        · rw [if_neg leaves] at finished ⊢
          exact ih finished
      · rw [if_neg asked] at finished ⊢
        cases finished
        rfl

/-- What every pass of the loop keeps holds when it ends or waits. -/
theorem readState_invariant {σ : Type} {more : σ → Bool} {pass : σ → Nat → σ × Bool} {state : σ}
    (invariant : σ → Prop) (initial : invariant state)
    (kept : ∀ state answer, invariant state → more state = true → invariant (pass state answer).1) :
    invariant (readState more pass state answers) := by
  induction answers generalizing state with
  | nil => exact initial
  | cons answer rest ih =>
      rw [readState]
      split
      · simp only
        split
        · exact kept _ _ initial ‹_›
        · exact ih (kept _ _ initial ‹_›)
      · exact initial

/-- A run that has a value went through both halves. -/
theorem bind_result {final : β × List Nat} (finished : ((program >>= next) answers).result = some final) :
    ∃ value rest, (program answers).result = some (value, rest) ∧
      (next value rest).result = some final := by
  cases result : (program answers).result with
  | none =>
      rw [bind_waiting result] at finished
      cases finished
  | some pair =>
      obtain ⟨value, rest⟩ := pair
      rw [bind_finished result] at finished
      exact ⟨value, rest, rfl, finished⟩

theorem bind_result_congr {others : List Nat}
    (same : (program answers).result = (program others).result) :
    ((program >>= next) answers).result = ((program >>= next) others).result := by
  cases result : (program others).result with
  | none => rw [bind_waiting result, bind_waiting (same.trans result)]
  | some pair => rw [bind_finished result, bind_finished (same.trans result)]

/-- More fuel than there are answers changes nothing. -/
theorem passes_fuel {σ : Type} {pass : σ → Port (σ × Bool)} {state : σ} {fuel more : Nat}
    (takes : ∀ state, Takes (pass state)) (enough : answers.length < fuel)
    (also : answers.length < more) :
    passes pass fuel state answers = passes pass more state answers := by
  induction fuel generalizing more state answers with
  | zero => omega
  | succ fuel ih =>
      obtain ⟨more, rfl⟩ := Nat.exists_eq_succ_of_ne_zero (show more ≠ 0 by omega)
      simp only [passes, ← bind_eq]
      cases result : (pass state answers).result with
      | none => rw [bind_waiting result, bind_waiting result]
      | some pair =>
          obtain ⟨next, rest⟩ := pair
          have shorter := takes state answers next rest result
          rw [bind_finished result, bind_finished result]
          split
          · rfl
          · rw [@ih rest next.1 more (by omega) (by omega)]

theorem loop_eq {σ : Type} {pass : σ → Port (σ × Bool)} {state : σ}
    (takes : ∀ state, Takes (pass state)) :
    loop pass state = pass state >>= fun next =>
      if next.2 then Pure.pure next.1 else loop pass next.1 := by
  funext answers
  rw [loop, passes, ← bind_eq]
  cases result : (pass state answers).result with
  | none => rw [bind_waiting result, bind_waiting result]
  | some pair =>
      obtain ⟨next, rest⟩ := pair
      have shorter := takes state answers next rest result
      rw [bind_finished result, bind_finished result]
      split
      · rfl
      · rw [loop, passes_fuel takes shorter (Nat.lt_succ_self _)]

/-- Every access of every run is a permitted one. -/
def Keeps (permitted : Access → Prop) (program : Port α) : Prop :=
  ∀ answers, ∀ access ∈ (program answers).log, permitted access

theorem Keeps.pure : Keeps permitted (Port.pure value) := by
  intro answers access member
  cases member

theorem Keeps.bind (first : Keeps permitted program) (second : ∀ value, Keeps permitted (next value)) :
    Keeps permitted (program >>= next) := by
  intro answers access member
  cases result : (program answers).result with
  | none =>
      rw [bind_waiting result] at member
      exact first answers access member
  | some pair =>
      obtain ⟨value, rest⟩ := pair
      rw [bind_finished result] at member
      cases List.mem_append.mp member with
      | inl early => exact first answers access early
      | inr late => exact second value rest access late

theorem Keeps.outb {byte : Nat} (allowed : permitted (.outb port byte)) :
    Keeps permitted (Port.outb port byte) := by
  intro answers access member
  rw [List.mem_singleton.mp member]
  exact allowed

theorem Keeps.outw {word : Nat} (allowed : permitted (.outw port word)) :
    Keeps permitted (Port.outw port word) := by
  intro answers access member
  rw [List.mem_singleton.mp member]
  exact allowed

theorem Keeps.inb (allowed : permitted (.inb port)) : Keeps permitted (Port.inb port) := by
  intro answers access member
  cases answers with
  | nil => rwa [List.mem_singleton.mp member]
  | cons answer rest => rwa [List.mem_singleton.mp member]

theorem Keeps.inw (allowed : permitted (.inw port)) : Keeps permitted (Port.inw port) := by
  intro answers access member
  cases answers with
  | nil => rwa [List.mem_singleton.mp member]
  | cons answer rest => rwa [List.mem_singleton.mp member]

theorem Keeps.pollWhile {test : Nat → Bool} (allowed : permitted (.inb port)) :
    Keeps permitted (Port.pollWhile port test) := by
  intro answers access member
  induction answers with
  | nil => rwa [List.mem_singleton.mp member]
  | cons answer rest ih =>
      rw [Port.pollWhile] at member
      split at member
      · cases List.mem_cons.mp member with
        | inl here => exact here ▸ allowed
        | inr later => exact ih later
      · rwa [List.mem_singleton.mp member]

theorem Keeps.times {body : Port Unit} {count : Nat} (kept : Keeps permitted body) :
    Keeps permitted (Port.times count body) := by
  induction count with
  | zero => exact Keeps.pure
  | succ count ih => exact kept.bind fun _ => ih

end Port

end Helios.Data
