import Mathlib.Data.Stream.Init
import Helios.Data.Port
import Helios.Data.Run

namespace Helios.Data

/-! What a run through ports does with its answers: which read gets which,
whether an endless device lets it end, and which accesses a watching machine
lets pass. -/

def Access.isRead : Access → Bool
  | .inb _ => true
  | .inw _ => true
  | .outb _ _ => false
  | .outw _ _ => false

/-- Whether the access moves a byte rather than a word. -/
def Access.isByte : Access → Bool
  | .inb _ => true
  | .inw _ => false
  | .outb _ _ => true
  | .outw _ _ => false

/-- How many answers the accesses of a log take. -/
def reads (log : List Access) : Nat := log.countP Access.isRead

section

variable {log : List Access} {port value : Nat}

@[simp] theorem reads_inb : reads (.inb port :: log) = reads log + 1 := List.countP_cons_of_pos rfl

@[simp] theorem reads_inw : reads (.inw port :: log) = reads log + 1 := List.countP_cons_of_pos rfl

@[simp] theorem reads_outb : reads (.outb port value :: log) = reads log :=
  List.countP_cons_of_neg Bool.false_ne_true

@[simp] theorem reads_outw : reads (.outw port value :: log) = reads log :=
  List.countP_cons_of_neg Bool.false_ne_true

end

/-- Each access with the value that it reads; a write reads none, and neither
does the access that still waits for its answer. -/
def heard : List Access → List Nat → List (Access × Option Nat)
  | [], _ => []
  | .inb port :: log, answers =>
      (.inb port, answers.head?.map (· % 256)) :: heard log answers.tail
  | .inw port :: log, answers =>
      (.inw port, answers.head?.map (· % 65536)) :: heard log answers.tail
  | .outb port value :: log, answers => (.outb port value, none) :: heard log answers
  | .outw port value :: log, answers => (.outw port value, none) :: heard log answers

theorem heard_cons (access : Access) (log : List Access) (answers : List Nat) :
    ∃ value later, heard (access :: log) answers = (access, value) :: heard log later := by
  cases access with
  | inb port => exact ⟨_, _, rfl⟩
  | inw port => exact ⟨_, _, rfl⟩
  | outb port value => exact ⟨_, _, rfl⟩
  | outw port value => exact ⟨_, _, rfl⟩

theorem heard_append {front back : List Access} {answers : List Nat} :
    heard (front ++ back) answers = heard front answers ++ heard back (answers.drop (reads front)) := by
  induction front generalizing answers with
  | nil => rfl
  | cons access rest ih =>
      cases access with
      | inb port => simp [heard, ih]
      | inw port => simp [heard, ih]
      | outb port value => simp [heard, ih]
      | outw port value => simp [heard, ih]

theorem heard_access {log : List Access} {answers : List Nat} {event : Access × Option Nat}
    (member : event ∈ heard log answers) : event.1 ∈ log := by
  induction log generalizing answers with
  | nil => cases member
  | cons access rest ih =>
      obtain ⟨value, later, split⟩ := heard_cons access rest answers
      rw [split] at member
      cases List.mem_cons.mp member with
      | inl here => exact here ▸ List.mem_cons_self
      | inr behind => exact List.mem_cons_of_mem _ (ih behind)

/-- The first answers of an endless device and the next ones. -/
theorem take_add (stream : Stream' Nat) (first more : Nat) :
    stream.take (first + more) = stream.take first ++ (stream.drop first).take more := by
  induction first generalizing stream with
  | zero => simp
  | succ first ih =>
      have shifted := ih stream.tail
      rw [Nat.succ_add, Stream'.take_succ, shifted, Stream'.take_succ, Stream'.drop_succ,
        List.cons_append]

namespace Port

variable {α β σ : Type} {program : Port α} {next : α → Port β}
variable {answers rest : List Nat} {value : α} {port : Nat} {test : Nat → Bool}

/-- A run with a value has taken the answers in front of those that are left,
one for each read, and goes the same way whatever follows them. -/
def Regular (program : Port α) : Prop :=
  ∀ answers value rest, (program answers).result = some (value, rest) →
    ∃ taken, answers = taken ++ rest ∧ reads (program answers).log = taken.length ∧
      ∀ more, program (taken ++ more) = ⟨(program answers).log, some (value, more)⟩

theorem Regular.pure : Regular (Port.pure value) := by
  intro answers other rest finished
  cases finished
  exact ⟨[], rfl, rfl, fun _ => rfl⟩

theorem Regular.outb {byte : Nat} : Regular (Port.outb port byte) := by
  intro answers other rest finished
  cases finished
  exact ⟨[], rfl, rfl, fun _ => rfl⟩

theorem Regular.outw {word : Nat} : Regular (Port.outw port word) := by
  intro answers other rest finished
  cases finished
  exact ⟨[], rfl, rfl, fun _ => rfl⟩

theorem Regular.inb : Regular (Port.inb port) := by
  intro answers other rest finished
  cases answers with
  | nil => cases finished
  | cons answer answers =>
      cases finished
      exact ⟨[answer], rfl, rfl, fun _ => rfl⟩

theorem Regular.inw : Regular (Port.inw port) := by
  intro answers other rest finished
  cases answers with
  | nil => cases finished
  | cons answer answers =>
      cases finished
      exact ⟨[answer], rfl, rfl, fun _ => rfl⟩

theorem Regular.bind (first : Regular program) (second : ∀ value, Regular (next value)) :
    Regular (program >>= next) := by
  intro answers final rest finished
  obtain ⟨value, middle, early, late⟩ := bind_result finished
  obtain ⟨taken, split, counted, extended⟩ := first answers value middle early
  obtain ⟨further, splitLater, countedLater, extendedLater⟩ := second value middle final rest late
  refine ⟨taken ++ further, ?_, ?_, fun more => ?_⟩
  · rw [split, splitLater, List.append_assoc]
  · rw [bind_finished early, reads, List.countP_append, ← reads, ← reads, counted, countedLater,
      List.length_append]
  · have again : (program (taken ++ (further ++ more))).result = some (value, further ++ more) := by
      rw [extended]
    rw [List.append_assoc, bind_finished again, extended, extendedLater, bind_finished early]

theorem Regular.pollWhile : Regular (Port.pollWhile port test) := by
  intro answers value rest finished
  induction answers with
  | nil => cases finished
  | cons answer answers ih =>
      rw [Port.pollWhile] at finished ⊢
      by_cases again : test (answer % 256)
      · rw [if_pos again] at finished ⊢
        obtain ⟨taken, split, counted, extended⟩ := ih finished
        refine ⟨answer :: taken, by rw [split, List.cons_append], ?_, fun more => ?_⟩
        · rw [reads_inb, counted, List.length_cons]
        · rw [List.cons_append, Port.pollWhile, if_pos again, extended]
      · rw [if_neg again] at finished ⊢
        cases finished
        refine ⟨[answer], rfl, rfl, fun more => ?_⟩
        rw [List.singleton_append, Port.pollWhile, if_neg again]

theorem Regular.times {body : Port Unit} {count : Nat} (regular : Regular body) :
    Regular (Port.times count body) := by
  induction count with
  | zero => exact .pure
  | succ count ih => exact regular.bind fun _ => ih

theorem Regular.left (regular : Regular program)
    (finished : (program answers).result = some (value, rest)) :
    answers.drop (reads (program answers).log) = rest := by
  obtain ⟨taken, split, counted, _⟩ := regular answers value rest finished
  rw [counted, split, List.drop_left]

/-- The second half of a run hears what the first half has left. -/
theorem heard_bind (regular : Regular program)
    (finished : (program answers).result = some (value, rest)) :
    heard ((program >>= next) answers).log answers =
      heard (program answers).log answers ++ heard (next value rest).log rest := by
  rw [bind_finished finished, heard_append, regular.left finished]

/-! Whether a run ends. -/

/-- With some number of the answers the run has its value. -/
def Ends (program : Port α) (stream : Stream' Nat) : Prop :=
  ∃ count, (program (stream.take count)).result.isSome

/-- From some answer on the run only polls a port, and every answer satisfies
the test on which it polls. -/
def Hangs (port : Nat) (test : Nat → Bool) (program : Port α) (stream : Stream' Nat) : Prop :=
  ∃ count, ∀ more, (program (stream.take (count + more))).result = none ∧
    (program (stream.take (count + more))).log =
      (program (stream.take count)).log ++ List.replicate more (.inb port) ∧
    test (stream.get (count + more) % 256)

/-- Only polling can keep the run from its end. -/
def Settles (port : Nat) (test : Nat → Bool) (program : Port α) : Prop :=
  ∀ stream, Ends program stream ∨ Hangs port test program stream

theorem Settles.pure : Settles port test (Port.pure value) := fun _ => .inl ⟨0, rfl⟩

theorem Settles.outb {other byte : Nat} : Settles port test (Port.outb other byte) :=
  fun _ => .inl ⟨0, rfl⟩

theorem Settles.inb {other : Nat} : Settles port test (Port.inb other) := fun _ => .inl ⟨1, rfl⟩

theorem Settles.inw {other : Nat} : Settles port test (Port.inw other) := fun _ => .inl ⟨1, rfl⟩

theorem Settles.bind (regular : Regular program) (first : Settles port test program)
    (second : ∀ value, Settles port test (next value)) : Settles port test (program >>= next) := by
  intro stream
  cases first stream with
  | inr hangs =>
      obtain ⟨count, waits⟩ := hangs
      have start : (program (stream.take count)).result = none := (waits 0).1
      refine .inr ⟨count, fun more => ?_⟩
      obtain ⟨waiting, log, busy⟩ := waits more
      rw [bind_waiting waiting, bind_waiting start]
      exact ⟨rfl, log, busy⟩
  | inl ends =>
      obtain ⟨count, done⟩ := ends
      obtain ⟨⟨value, rest⟩, finished⟩ := Option.isSome_iff_exists.mp done
      obtain ⟨taken, split, _, extended⟩ := regular _ value rest finished
      have long : taken.length ≤ count := by
        have lengths := congrArg List.length split
        rw [Stream'.length_take, List.length_append] at lengths
        omega
      have front : stream.take taken.length = taken := by
        have cut := congrArg (List.take taken.length) split
        rwa [Stream'.take_take, Nat.min_eq_right long, List.take_left] at cut
      -- Behind the answers of the first half the stream is one for the second.
      have resumed : ∀ more, program (stream.take (taken.length + more)) =
          ⟨(program (stream.take count)).log, some (value, (stream.drop taken.length).take more)⟩ :=
        fun more => by rw [take_add, front, extended]
      have whole : ∀ more, (program >>= next) (stream.take (taken.length + more)) =
          ⟨(program (stream.take count)).log ++
            (next value ((stream.drop taken.length).take more)).log,
            (next value ((stream.drop taken.length).take more)).result⟩ := fun more => by
        rw [bind_finished (congrArg Trace.result (resumed more)), resumed]
      cases second value (stream.drop taken.length) with
      | inl later =>
          obtain ⟨further, done⟩ := later
          refine .inl ⟨taken.length + further, ?_⟩
          rw [whole]
          exact done
      | inr later =>
          obtain ⟨further, waits⟩ := later
          refine .inr ⟨taken.length + further, fun more => ?_⟩
          obtain ⟨waiting, log, busy⟩ := waits more
          rw [Nat.add_assoc, whole, whole]
          refine ⟨waiting, ?_, ?_⟩
          · show _ ++ (next value _).log = _
            rw [log, List.append_assoc]
          · rwa [Stream'.get_drop] at busy

/-- Polling takes the answers up to the first one that fails the test. -/
theorem pollWhile_result : (Port.pollWhile port test answers).result = some ((), rest) ↔
    ∃ last, (answers.dropWhile fun answer => test (answer % 256)) = last :: rest := by
  induction answers with
  | nil => simp [Port.pollWhile]
  | cons answer answers ih =>
      rw [Port.pollWhile]
      by_cases again : test (answer % 256)
      · rw [if_pos again, List.dropWhile_cons, if_pos again]
        exact ih
      · rw [if_neg again, List.dropWhile_cons, if_neg again]
        simp

theorem pollWhile_waiting (all : ∀ answer ∈ answers, test (answer % 256)) :
    Port.pollWhile port test answers =
      ⟨List.replicate (answers.length + 1) (.inb port), none⟩ := by
  induction answers with
  | nil => rfl
  | cons answer answers ih =>
      rw [Port.pollWhile, if_pos (all answer (by simp)), ih fun other member => all other (by simp [member])]
      rfl

theorem Settles.pollWhile : Settles port test (Port.pollWhile port test) := by
  intro stream
  by_cases some_idle : ∃ index, ¬ test (stream.get index % 256)
  · obtain ⟨index, idle⟩ := some_idle
    refine .inl ⟨index + 1, ?_⟩
    induction index generalizing stream with
    | zero =>
        rw [Stream'.take_succ, Port.pollWhile, if_neg idle]
        rfl
    | succ index ih =>
        have later := ih stream.tail idle
        rw [Stream'.take_succ, Port.pollWhile]
        split
        · exact later
        · rfl
  · rw [not_exists] at some_idle
    have busy : ∀ index, test (stream.get index % 256) := fun index => not_not.mp (some_idle index)
    have waits : ∀ count, Port.pollWhile port test (stream.take count) =
        ⟨List.replicate (count + 1) (.inb port), none⟩ := by
      intro count
      rw [pollWhile_waiting, Stream'.length_take]
      intro answer member
      obtain ⟨index, small, same⟩ := List.mem_iff_getElem.mp member
      have found : (stream.take count)[index]? = some (stream.get index) :=
        Stream'.getElem?_take (by simpa using small)
      rw [List.getElem?_eq_getElem small, same, Option.some.injEq] at found
      rw [found]
      exact busy index
    refine .inr ⟨0, fun more => ?_⟩
    rw [waits, waits, Nat.zero_add]
    exact ⟨rfl, by rw [Nat.add_comm, List.replicate_add], busy more⟩

theorem Settles.times {body : Port Unit} {count : Nat} (regular : Regular body)
    (settles : Settles port test body) : Settles port test (Port.times count body) := by
  induction count with
  | zero => exact .pure
  | succ count ih => exact .bind regular settles fun _ => ih

/-! A machine that watches the accesses and the values they read. -/

/-- The state of the machine behind a run, unless it has refused an access. -/
def watched (step : σ → Access × Option Nat → Option σ) (state : σ) (program : Port α)
    (answers : List Nat) : Option σ :=
  run step state (heard (program answers).log answers)

section

variable {step : σ → Access × Option Nat → Option σ} {state : σ}

theorem watched_bind (regular : Regular program)
    (finished : (program answers).result = some (value, rest)) :
    watched step state (program >>= next) answers =
      (watched step state program answers).bind fun middle =>
        watched step middle (next value) rest := by
  rw [watched, heard_bind regular finished, run_append]
  rfl

theorem watched_waiting (waiting : (program answers).result = none) :
    watched step state (program >>= next) answers = watched step state program answers := by
  rw [watched, bind_waiting waiting, watched]

theorem watched_inb {answer : Nat} : watched step state (Port.inb port) (answer :: answers) =
    step state (.inb port, some (answer % 256)) :=
  Option.bind_fun_some _

theorem watched_inw_waiting : watched step state (Port.inw port) [] =
    step state (.inw port, none) :=
  Option.bind_fun_some _

theorem watched_inw {answer : Nat} : watched step state (Port.inw port) (answer :: answers) =
    step state (.inw port, some (answer % 65536)) :=
  Option.bind_fun_some _

theorem watched_outw {word : Nat} : watched step state (Port.outw port word) answers =
    step state (.outw port word, none) :=
  Option.bind_fun_some _

theorem watched_outb {byte : Nat} {next : Unit → Port β} :
    watched step state (Port.outb port byte >>= next) answers =
      (step state (.outb port byte, none)).bind fun middle => watched step middle (next ()) answers := by
  rw [watched, outb_bind, heard, run]
  rfl

/-- A run passes whose accesses each keep an invariant of the machine. -/
theorem watched_keeps {permitted : Access → Prop} {invariant : σ → Prop}
    (kept : Keeps permitted program) (initial : invariant state)
    (passes : ∀ state access value, invariant state → permitted access →
      ∃ next, step state (access, value) = some next ∧ invariant next) :
    ∃ final, watched step state program answers = some final ∧ invariant final := by
  have events : ∀ event ∈ heard (program answers).log answers, permitted event.1 :=
    fun event member => kept answers event.1 (heard_access member)
  have along : Along step (fun _ event => permitted event.1) state
      (heard (program answers).log answers) :=
    .of_forall fun event member _ => events event member
  exact run_total invariant along initial fun state event holds allowed =>
    passes state event.1 event.2 holds allowed

end

end Port

end Helios.Data
