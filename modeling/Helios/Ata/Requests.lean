import Helios.Ata.Records
import Helios.Ata.Transfers

namespace Helios.Ata

open Helios.Data

/-! Whether the drive has asked for the data that is transferred. -/

/-- BSY clear and DRQ set; `ata.h` has `ATA_SR_DRQ`, which nothing that is
called looks at. -/
def asks (status : Nat) : Bool := status &&& ataSrBsy = 0 ∧ status &&& ataSrDrq ≠ 0

/-- How many words of a burst have been moved, and whether the drive has asked
for it since the last command or burst. -/
structure Burst where
  words : Nat
  asked : Bool
deriving DecidableEq

/-- A word on the data port: the first one of a burst must have been asked for. -/
def Burst.word (burst : Burst) : Option Burst :=
  if burst.words = 0 ∧ burst.asked = false then none
  else if burst.words = 255 then some ⟨0, false⟩
  else some { burst with words := burst.words + 1 }

/-- The channel as it sees the accesses. -/
def attend (base : Nat) (burst : Burst) : Access × Option Nat → Option Burst
  | (.inb port, status) =>
      if port = portAt base ataStatus ∧ status.any asks then some { burst with asked := true }
      else some burst
  | (.outb port _, _) => if port = portAt base ataCommand then some ⟨0, false⟩ else some burst
  | (.inw port, _) => if port = portAt base 0 then burst.word else some burst
  | (.outw port _, _) => if port = portAt base 0 then burst.word else some burst

/-- Every burst of a run has been asked for. -/
def DataAsked {α : Type} (base : Nat) (program : Port α) (answers : List Nat) : Prop :=
  (Port.watched (attend base) ⟨0, false⟩ program answers).isSome

/-- The answers of the status register in `ata_wait_ready`, from the one on that
ends the polling. -/
def settled (answers : List Nat) : List Nat :=
  (answers.drop 4).dropWhile fun status => busy (status % 256)

/-- Each sector for which the drive is found ready has DRQ in one of the two
last statuses. -/
def ReadsAsked : Nat → List Nat → Prop
  | 0, _ => True
  | count + 1, answers => ∀ last status rest, settled answers = last :: status :: rest →
      Ready (status % 256) →
      (asks (last % 256) ∨ asks (status % 256)) ∧ ReadsAsked count (rest.drop 256)

/-- For a write the status that ends the flush of the sector before counts too. -/
def WritesAsked : Bool → Nat → List Nat → Prop
  | _, 0, _ => True
  | asked, count + 1, answers => ∀ last status rest, settled answers = last :: status :: rest →
      Ready (status % 256) →
      (asked ∨ asks (last % 256) ∨ asks (status % 256)) ∧
        ∀ flushed more, (rest.dropWhile fun status => busy (status % 256)) = flushed :: more →
          WritesAsked (asks (flushed % 256)) count more

/-- The condition for the sectors of a call that gets to its command. -/
def CommandAsked (ata : Driver) (drive num : Nat) (sectors : List Nat → Prop) (answers : List Nat) :
    Prop :=
  ata.initialized = true → ata.present drive ≠ 0 → num ≠ 0 → ∀ last status rest,
    settled (answers.drop 4) = last :: status :: rest → Ready (status % 256) → sectors rest

/-- One of the five statuses behind the IDENTIFY command asks for its data. -/
def ProbeAsked (answers : List Nat) : Prop :=
  ∀ first polled idle second mid high between last status rest,
    answers.drop 4 = first :: polled → first % 256 ≠ 0 →
    (polled.dropWhile fun status => busy (status % 256)) = idle :: second :: mid :: high :: between →
    mid % 256 = 0 → high % 256 = 0 → settled between = last :: status :: rest →
    Ready (status % 256) →
    asks (first % 256) ∨ asks (idle % 256) ∨ asks (second % 256) ∨ asks (last % 256) ∨
      asks (status % 256)

section

variable {base port drive num lba code count : Nat} {answers rest : List Nat} {asked : Bool}
variable {ata : Driver} {memory : Memory} {burst : Burst} {α β : Type}

theorem busy_asks {status : Nat} (waiting : busy status) : asks status = false := by
  have set : status &&& ataSrBsy ≠ 0 := by simpa [busy] using waiting
  simp [asks, set]

theorem attend_status {status : Nat} :
    attend base burst (.inb (portAt base ataStatus), some status) =
      some { burst with asked := burst.asked || asks status } := by
  by_cases asking : asks status
  · simp [attend, asking]
  · simp [attend, asking]

theorem attend_outb {value : Nat} :
    attend base burst (.outb (portAt base ataCommand) value, none) = some ⟨0, false⟩ := by
  simp [attend]

theorem attend_word {value : Option Nat} :
    attend base burst (.inw (portAt base 0), value) = burst.word := by
  simp [attend]

theorem attend_outw {value : Nat} :
    attend base burst (.outw (portAt base 0) value, none) = burst.word := by
  simp [attend]

theorem attend_other (other : port ≠ portAt base ataStatus) (value : Option Nat) :
    attend base burst (.inb port, value) = some burst := by
  simp [attend, other]

/-- No byte access is refused, and none of them moves a word. -/
theorem watched_bytes {program : Port α} (bytes : Port.Keeps (fun access => access.isByte) program)
    (start : burst.words = 0) :
    ∃ final, Port.watched (attend base) burst program answers = some final ∧ final.words = 0 := by
  refine Port.watched_keeps bytes start fun burst access value none byte => ?_
  cases access with
  | inb port =>
      rw [attend]
      split
      · exact ⟨_, rfl, none⟩
      · exact ⟨_, rfl, none⟩
  | outb port value =>
      rw [attend]
      split
      · exact ⟨_, rfl, rfl⟩
      · exact ⟨_, rfl, none⟩
  | inw port => cases byte
  | outw port value => cases byte

theorem delay_result : ((Port.times count (Port.inb port >>= fun _ => pure ())) answers).result =
    if count ≤ answers.length then some ((), answers.drop count) else none := by
  induction count generalizing answers with
  | zero => rfl
  | succ count ih =>
      cases answers with
      | nil => rfl
      | cons answer answers =>
          have read : ((Port.inb port >>= fun _ => (pure () : Port Unit)) (answer :: answers)).result =
              some ((), answers) := rfl
          rw [Port.times_succ, Port.bind_finished read, ih]
          simp only [List.length_cons, Nat.add_le_add_iff_right, List.drop_succ_cons]

/-- The alternate status is not the one that counts. -/
theorem delay_watched :
    Port.watched (attend base) burst
      (Port.times count (Port.inb (portAt base ataAltStatus) >>= fun _ => pure ())) answers =
      some burst := by
  have alternate : portAt base ataAltStatus ≠ portAt base ataStatus :=
    portAt_ne (by decide) (by decide) (by decide)
  have polls : Port.Keeps (· = .inb (portAt base ataAltStatus))
      (Port.times count (Port.inb (portAt base ataAltStatus) >>= fun _ => (pure () : Port Unit))) :=
    .times (.bind (.inb rfl) fun _ => .pure)
  have ignored : ∀ state access value, burst = state → access = .inb (portAt base ataAltStatus) →
      ∃ next, attend base state (access, value) = some next ∧ burst = next :=
    fun state access value same poll => ⟨state, by rw [poll, attend_other alternate], same⟩
  obtain ⟨final, passed, same⟩ := Port.watched_keeps polls rfl ignored
  rw [passed, same]

/-- Polling hears one status with BSY clear, its last. -/
theorem waitBusy_watched {last : Nat}
    (polled : (answers.dropWhile fun status => busy (status % 256)) = last :: rest) :
    Port.watched (attend base) burst (ataWaitBusy base) answers =
      some { burst with asked := burst.asked || asks (last % 256) } := by
  induction answers with
  | nil => cases polled
  | cons status answers ih =>
      by_cases waiting : busy (status % 256)
      · rw [List.dropWhile_cons, if_pos waiting] at polled
        have log : ((ataWaitBusy base) (status :: answers)).log =
            .inb (portAt base ataStatus) :: ((ataWaitBusy base) answers).log :=
          congrArg Trace.log (if_pos waiting)
        have heard : attend base burst (.inb (portAt base ataStatus), some (status % 256)) =
            some burst := by
          rw [attend_status, busy_asks waiting, Bool.or_false]
        rw [Port.watched, log]
        exact (run_cons heard).trans (ih polled)
      · rw [List.dropWhile_cons, if_neg waiting] at polled
        cases polled
        have log : ((ataWaitBusy base) (last :: rest)).log = [.inb (portAt base ataStatus)] :=
          congrArg Trace.log (if_neg waiting)
        rw [Port.watched, log]
        exact run_cons attend_status

/-- `ata_wait_ready` hears the status that ends the polling and the one that it
tests. -/
theorem waitReady_settled {last status : Nat} (shape : settled answers = last :: status :: rest) :
    ((ataWaitReady base) answers).result = some (if Ready (status % 256) then 1 else 0, rest) ∧
      Port.watched (attend base) burst (ataWaitReady base) answers =
        some { burst with asked := burst.asked || asks (last % 256) || asks (status % 256) } := by
  have long : 4 ≤ answers.length := by
    by_contra short
    rw [settled, List.drop_eq_nil_of_le (by omega)] at shape
    cases shape
  have delayed : ((Port.times 4 (Port.inb (portAt base ataAltStatus) >>= fun _ =>
      (pure () : Port Unit))) answers).result = some ((), answers.drop 4) := by
    rw [delay_result, if_pos long]
  have polled : ((ataWaitBusy base) (answers.drop 4)).result = some ((), status :: rest) :=
    Port.pollWhile_result.mpr ⟨last, shape⟩
  rw [waitReady_eq]
  constructor
  · rw [Port.bind_finished delayed, Port.bind_finished polled, Port.bind_finished rfl]
    rfl
  · rw [Port.watched_bind delay_regular delayed, delay_watched, Option.bind_some,
      Port.watched_bind waitBusy_regular polled, waitBusy_watched shape, Option.bind_some,
      Port.watched_bind .inb rfl, Port.watched_inb, attend_status]
    rfl

theorem waitReady_unsettled (shape : ∀ last status rest, settled answers ≠ last :: status :: rest) :
    ((ataWaitReady base) answers).result = none := by
  cases result : ((ataWaitReady base) answers).result with
  | none => rfl
  | some pair =>
      rw [waitReady_eq] at result
      obtain ⟨_, later, delayed, result⟩ := Port.bind_result result
      obtain ⟨_, middle, polled, result⟩ := Port.bind_result result
      obtain ⟨status, rest, read, _⟩ := Port.bind_result result
      rw [delay_result] at delayed
      split at delayed
      · cases delayed
        obtain ⟨last, shaped⟩ := Port.pollWhile_result.mp polled
        cases middle with
        | nil => cases read
        | cons status rest => exact absurd shaped (shape last status rest)
      · cases delayed

theorem word_taken {words : Nat} (small : words < 255) :
    Burst.word ⟨words, true⟩ = some ⟨words + 1, true⟩ := by
  simp [Burst.word, small.ne]

theorem readWords_waiting {address : Nat} :
    Port.watched (attend base) burst (readWords (portAt base 0) (count + 1) memory address) [] =
      burst.word := by
  have waiting : ((Port.inw (portAt base 0)) []).result = none := rfl
  rw [readWords, Port.watched_waiting waiting, Port.watched_inw_waiting, attend_word]

theorem readWords_step {address answer : Nat} :
    Port.watched (attend base) burst (readWords (portAt base 0) (count + 1) memory address)
        (answer :: answers) =
      burst.word.bind fun next => Port.watched (attend base) next
        (readWords (portAt base 0) count (memory.store16 address (answer % 65536)) (address + 2))
        answers := by
  rw [readWords, Port.watched_bind .inw rfl, Port.watched_inw, attend_word]

theorem readWords_refused {address : Nat} :
    Port.watched (attend base) ⟨0, false⟩ (readWords (portAt base 0) (count + 1) memory address)
      answers = none := by
  cases answers with
  | nil => exact readWords_waiting
  | cons answer answers => exact readWords_step

/-- A burst that has been asked for passes, and ends with nothing asked for. -/
theorem readWords_watched {address words : Nat} (full : words + count = 255) : ∃ final,
    Port.watched (attend base) ⟨words, true⟩
        (readWords (portAt base 0) (count + 1) memory address) answers = some final ∧
      (count < answers.length → final = ⟨0, false⟩) := by
  induction count generalizing memory address answers words with
  | zero =>
      obtain rfl : words = 255 := full
      cases answers with
      | nil => exact ⟨_, readWords_waiting, fun none => nomatch none⟩
      | cons answer answers => exact ⟨_, readWords_step, fun _ => rfl⟩
  | succ count ih =>
      cases answers with
      | nil => exact ⟨_, readWords_waiting.trans (word_taken (by omega)), fun none => nomatch none⟩
      | cons answer answers =>
          obtain ⟨final, passed, ended⟩ := @ih answers (memory.store16 address (answer % 65536))
            (address + 2) (words + 1) (by omega)
          rw [readWords_step, word_taken (by omega)]
          exact ⟨final, passed, fun enough => ended (by simpa using enough)⟩

theorem writeWords_step {address : Nat} :
    Port.watched (attend base) burst (writeWords (portAt base 0) memory (count + 1) address)
        answers =
      burst.word.bind fun next => Port.watched (attend base) next
        (writeWords (portAt base 0) memory count (address + 2)) answers := by
  rw [writeWords, Port.watched_bind .outw rfl, Port.watched_outw, attend_outw]

theorem writeWords_refused {address : Nat} :
    Port.watched (attend base) ⟨0, false⟩ (writeWords (portAt base 0) memory (count + 1) address)
      answers = none :=
  writeWords_step

theorem writeWords_watched {address words : Nat} (full : words + count = 255) :
    Port.watched (attend base) ⟨words, true⟩
      (writeWords (portAt base 0) memory (count + 1) address) answers = some ⟨0, false⟩ := by
  induction count generalizing address words with
  | zero =>
      obtain rfl : words = 255 := full
      exact writeWords_step
  | succ count ih =>
      rw [writeWords_step, word_taken (by omega)]
      exact ih (by omega)

theorem readsAsked_nil : ReadsAsked count [] := by
  cases count with
  | zero => trivial
  | succ count =>
      intro last status rest shape
      cases shape

/-- What is done behind a ready drive is watched with the two statuses that were
read last. -/
theorem waitReady_guard {failed : α} {body : Port α} :
    (Port.watched (attend base) ⟨0, asked⟩ (ataWaitReady base >>= fun ready =>
        if ready = 0 then pure failed else body) answers).isSome ↔
      ∀ last status rest, settled answers = last :: status :: rest → Ready (status % 256) →
        (Port.watched (attend base) ⟨0, asked || asks (last % 256) || asks (status % 256)⟩ body
          rest).isSome := by
  by_cases shape : ∃ last status rest, settled answers = last :: status :: rest
  · obtain ⟨last, status, rest, shape⟩ := shape
    obtain ⟨waited, heard⟩ := @waitReady_settled base answers rest ⟨0, asked⟩ last status shape
    rw [Port.watched_bind waitReady_regular waited, heard, Option.bind_some, shape]
    by_cases ready : Ready (status % 256)
    · rw [if_pos ready, if_neg Nat.one_ne_zero]
      constructor
      · intro passed other another more same _
        cases same
        exact passed
      · exact fun passes => passes last status rest rfl ready
    · rw [if_neg ready, if_pos rfl]
      constructor
      · intro _ other another more same accepted
        cases same
        exact absurd accepted ready
      · exact fun _ => rfl
  · have unsettled : ∀ last status rest, settled answers ≠ last :: status :: rest :=
      fun last status rest same => shape ⟨last, status, rest, same⟩
    rw [Port.watched_waiting (waitReady_unsettled unsettled)]
    obtain ⟨final, passed, _⟩ := @watched_bytes base answers ⟨0, asked⟩ _ _ waitReady_bytes rfl
    rw [passed]
    exact ⟨fun _ last status rest same => absurd same (unsettled last status rest), fun _ => rfl⟩

theorem readBurst_iff {address : Nat} {next : Memory → Port α} :
    (Port.watched (attend base) ⟨0, asked⟩ (readWords (portAt base 0) 256 memory address >>= next)
        answers).isSome ↔
      asked = true ∧ ∀ after rest,
        ((readWords (portAt base 0) 256 memory address) answers).result = some (after, rest) →
        (Port.watched (attend base) ⟨0, false⟩ (next after) rest).isSome := by
  cases result : ((readWords (portAt base 0) 256 memory address) answers).result with
  | none =>
      rw [Port.watched_waiting result]
      cases asked with
      | false => simp [readWords_refused]
      | true =>
          obtain ⟨final, passed, _⟩ := @readWords_watched base 255 answers memory address 0 rfl
          simp [passed]
  | some pair =>
      obtain ⟨after, rest⟩ := pair
      rw [Port.watched_bind readWords_regular result]
      cases asked with
      | false => simp [readWords_refused]
      | true =>
          obtain ⟨final, passed, ended⟩ := @readWords_watched base 255 answers memory address 0 rfl
          have enough := readWords_finishes.mp (Option.isSome_iff_exists.mpr ⟨_, result⟩)
          simp [passed, ended enough]

theorem readSectors_asked_iff {done buf : Nat} :
    DataAsked base (readSectors base done count memory buf) answers ↔ ReadsAsked count answers := by
  induction count generalizing memory done buf answers with
  | zero => exact ⟨fun _ => trivial, fun _ => rfl⟩
  | succ count ih =>
      rw [DataAsked, readSectors, waitReady_guard, ReadsAsked]
      refine forall_congr' fun last => forall_congr' fun status => forall_congr' fun rest =>
        imp_congr_right fun shape => imp_congr_right fun ready => ?_
      rw [readBurst_iff, Bool.false_or, Bool.or_eq_true]
      refine and_congr_right fun _ => ?_
      constructor
      · intro passes
        by_cases enough : 256 ≤ rest.length
        · obtain ⟨⟨after, left⟩, moved⟩ :=
            Option.isSome_iff_exists.mp ((@readWords_finishes memory buf 256 (portAt base 0) rest).mpr enough)
          rw [← (readWords_result moved).2]
          exact ih.mp (passes after left moved)
        · rw [List.drop_eq_nil_of_le (by omega)]
          exact readsAsked_nil
      · intro asked after left moved
        rw [(readWords_result moved).2]
        exact ih.mpr asked

theorem writeWords_regular {address : Nat} : Port.Regular (writeWords port memory count address) := by
  induction count generalizing address with
  | zero => exact .pure
  | succ count ih => exact .bind .outw fun _ => ih

theorem writeBurst_iff {address : Nat} {next : Unit → Port α} :
    (Port.watched (attend base) ⟨0, asked⟩ (writeWords (portAt base 0) memory 256 address >>= next)
        answers).isSome ↔
      asked = true ∧ (Port.watched (attend base) ⟨0, false⟩ (next ()) answers).isSome := by
  have moved : ((writeWords (portAt base 0) memory 256 address) answers).result =
      some ((), answers) := by
    rw [writeWords_log]
  rw [Port.watched_bind writeWords_regular moved]
  cases asked with
  | false => simp [writeWords_refused]
  | true => simp [@writeWords_watched base 255 answers memory address 0 rfl]

theorem waitBusy_guard {body : Port α} :
    (Port.watched (attend base) ⟨0, asked⟩ (ataWaitBusy base >>= fun _ => body) answers).isSome ↔
      ∀ idle more, (answers.dropWhile fun status => busy (status % 256)) = idle :: more →
        (Port.watched (attend base) ⟨0, asked || asks (idle % 256)⟩ body more).isSome := by
  cases polled : answers.dropWhile fun status => busy (status % 256) with
  | nil =>
      have waiting : ((ataWaitBusy base) answers).result = none := by
        cases result : ((ataWaitBusy base) answers).result with
        | none => rfl
        | some pair =>
            obtain ⟨last, shape⟩ := Port.pollWhile_result.mp result
            exact absurd (polled.symm.trans shape) nofun
      obtain ⟨final, passed, _⟩ := @watched_bytes base answers ⟨0, asked⟩ _ _ waitBusy_bytes rfl
      rw [Port.watched_waiting waiting, passed]
      exact ⟨fun _ idle more same => (nomatch same), fun _ => rfl⟩
  | cons idle more =>
      have ended : ((ataWaitBusy base) answers).result = some ((), more) :=
        Port.pollWhile_result.mpr ⟨idle, polled⟩
      rw [Port.watched_bind waitBusy_regular ended, waitBusy_watched polled, Option.bind_some]
      constructor
      · intro passed other left same
        cases same
        exact passed
      · exact fun passes => passes idle more rfl

/-- The status that ends a flush is the first one that can ask for more data. -/
theorem flush_guard {value : Nat} {body : Port α} :
    (Port.watched (attend base) burst (Port.outb (portAt base ataCommand) value >>= fun _ =>
        ataWaitBusy base >>= fun _ => body) answers).isSome ↔
      ∀ flushed more, (answers.dropWhile fun status => busy (status % 256)) = flushed :: more →
        (Port.watched (attend base) ⟨0, asks (flushed % 256)⟩ body more).isSome := by
  rw [Port.watched_outb, attend_outb, Option.bind_some, waitBusy_guard]
  simp only [Bool.false_or]

/-- A byte that is read leaves the rest of the run to what has been asked for
then. -/
theorem inb_guard {next : Nat → Port α} {after : Nat → Burst}
    (attended : ∀ answer, attend base burst (.inb port, some answer) = some (after answer)) :
    (Port.watched (attend base) burst (Port.inb port >>= next) answers).isSome ↔
      ∀ answer rest, answers = answer :: rest →
        (Port.watched (attend base) (after (answer % 256)) (next (answer % 256)) rest).isSome := by
  cases answers with
  | nil =>
      have waiting : ((Port.inb port) []).result = none := rfl
      have passed : Port.watched (attend base) burst (Port.inb port) [] = some burst := by
        refine (Option.bind_fun_some _).trans ?_
        simp [attend]
      rw [Port.watched_waiting waiting, passed]
      exact ⟨fun _ answer rest same => (nomatch same), fun _ => rfl⟩
  | cons answer rest =>
      rw [Port.watched_bind .inb rfl, Port.watched_inb, attended, Option.bind_some]
      constructor
      · intro passed other left same
        cases same
        exact passed
      · exact fun passes => passes answer rest rfl

theorem status_guard {next : Nat → Port α} :
    (Port.watched (attend base) ⟨0, asked⟩ (Port.inb (portAt base ataStatus) >>= next)
        answers).isSome ↔
      ∀ status rest, answers = status :: rest →
        (Port.watched (attend base) ⟨0, asked || asks (status % 256)⟩ (next (status % 256))
          rest).isSome :=
  inb_guard fun _ => attend_status

/-- A call may return without touching the data port. -/
theorem return_guard {condition : Prop} [Decidable condition] {value : α} {program : Port α} :
    (Port.watched (attend base) burst (if condition then pure value else program) answers).isSome ↔
      (¬ condition → (Port.watched (attend base) burst program answers).isSome) := by
  by_cases returns : condition
  · rw [if_pos returns]
    exact ⟨fun _ other => absurd returns other, fun _ => rfl⟩
  · rw [if_neg returns]
    exact ⟨fun passed _ => passed, fun passes => passes returns⟩

theorem writeSectors_asked_iff {done buf : Nat} :
    (Port.watched (attend base) ⟨0, asked⟩ (writeSectors base memory done count buf) answers).isSome ↔
      WritesAsked asked count answers := by
  induction count generalizing done buf answers asked with
  | zero => exact ⟨fun _ => trivial, fun _ => rfl⟩
  | succ count ih =>
      rw [writeSectors, waitReady_guard, WritesAsked]
      refine forall_congr' fun last => forall_congr' fun status => forall_congr' fun rest =>
        imp_congr_right fun shape => imp_congr_right fun ready => ?_
      rw [writeBurst_iff, flush_guard, Bool.or_eq_true, Bool.or_eq_true, or_assoc]
      exact and_congr_right fun _ => forall_congr' fun flushed => forall_congr' fun more =>
        imp_congr_right fun ended => ih

theorem selectDrive_result : ((ataSelectDrive ata drive) answers).result =
    if 4 ≤ answers.length then some ((), answers.drop 4) else none := by
  rw [ataSelectDrive, Port.outb_bind, delay_result]

/-- What comes behind the choice of the drive is watched with no word moved. -/
theorem selectDrive_guard {body : Port α} {condition : List Nat → Prop}
    (empty : condition [])
    (guarded : ∀ asked answers, (Port.watched (attend base) ⟨0, asked⟩ body answers).isSome ↔
      condition answers) :
    DataAsked base (ataSelectDrive ata drive >>= fun _ => body) answers ↔
      condition (answers.drop 4) := by
  obtain ⟨⟨words, asked⟩, passed, none⟩ :=
    @watched_bytes base answers ⟨0, false⟩ _ _ (@selectDrive_bytes ata drive) rfl
  obtain rfl : words = 0 := none
  rw [DataAsked]
  by_cases long : 4 ≤ answers.length
  · have selected : ((ataSelectDrive ata drive) answers).result = some ((), answers.drop 4) := by
      rw [selectDrive_result, if_pos long]
    rw [Port.watched_bind selectDrive_regular selected, passed, Option.bind_some]
    exact guarded asked (answers.drop 4)
  · have waiting : ((ataSelectDrive ata drive) answers).result = Option.none := by
      rw [selectDrive_result, if_neg long]
    rw [Port.watched_waiting waiting, passed, List.drop_eq_nil_of_le (by omega)]
    exact ⟨fun _ => empty, fun _ => rfl⟩

theorem setAddress_watched {slave : Nat} {body : Port α} :
    Port.watched (attend base) ⟨0, asked⟩ (setAddress base lba num slave >>= fun _ =>
        Port.outb (portAt base ataCommand) code >>= fun _ => body) answers =
      Port.watched (attend base) ⟨0, false⟩ body answers := by
  have bytes : Port.Keeps (fun access => access.isByte) (setAddress base lba num slave) :=
    .bind (.outb rfl) fun _ => .bind (.outb rfl) fun _ => .bind (.outb rfl) fun _ =>
      .bind (.outb rfl) fun _ => .outb rfl
  have set : ((setAddress base lba num slave) answers).result = some ((), answers) := rfl
  obtain ⟨final, passed, _⟩ := @watched_bytes base answers ⟨0, asked⟩ _ _ bytes rfl
  rw [Port.watched_bind setAddress_regular set, passed, Option.bind_some, Port.watched_outb,
    attend_outb, Option.bind_some]

theorem command_asked_iff {failed : α} {transfer : Nat → Port α} {sectors : List Nat → Prop}
    (asked : ∀ answers, DataAsked (ata.base (ata.channel drive))
      (transfer (ata.base (ata.channel drive))) answers ↔ sectors answers) :
    DataAsked (ata.base (ata.channel drive)) (command ata drive lba num code failed transfer)
        answers ↔
      CommandAsked ata drive num sectors answers := by
  by_cases running : ata.initialized = true ∧ ata.present drive ≠ 0 ∧ num ≠ 0
  · obtain ⟨ready, present, some_sectors⟩ := running
    have guarded : ∀ before answers, (Port.watched (attend (ata.base (ata.channel drive))) ⟨0, before⟩
        (ataWaitReady (ata.base (ata.channel drive)) >>= fun ready => if ready = 0 then pure failed
          else setAddress (ata.base (ata.channel drive)) lba num (ata.drive drive) >>= fun _ =>
            Port.outb (portAt (ata.base (ata.channel drive)) ataCommand) code >>= fun _ =>
              transfer (ata.base (ata.channel drive))) answers).isSome ↔
        ∀ last status rest, settled answers = last :: status :: rest → Ready (status % 256) →
          sectors rest := by
      intro before answers
      rw [waitReady_guard]
      refine forall_congr' fun last => forall_congr' fun status => forall_congr' fun rest =>
        imp_congr_right fun shape => imp_congr_right fun accepted => ?_
      rw [setAddress_watched]
      exact asked rest
    rw [command_eq ready present some_sectors, awaitDrive, Port.bind_assoc,
      selectDrive_guard (fun _ _ _ same => by cases same) guarded]
    exact ⟨fun holds _ _ _ => holds, fun holds => holds ready present some_sectors⟩
  · have silent : command ata drive lba num code failed transfer = pure failed := by
      rw [command]
      split
      · rfl
      · rename_i available
        rw [if_pos]
        by_contra some_sectors
        simp only [not_or, Bool.not_eq_false] at available
        exact running ⟨available.1, available.2, some_sectors⟩
    rw [silent]
    exact ⟨fun _ ready present some_sectors => absurd ⟨ready, present, some_sectors⟩ running,
      fun _ => rfl⟩

/-- The end of a probe: the readiness of the drive and the transfer. -/
theorem identify_guard :
    (Port.watched (attend base) ⟨0, asked⟩ (ataWaitReady base >>= fun ready =>
        if ready = 0 then pure (ata, 0)
        else readWords (portAt base 0) 256 ata.devices (identifyAddress drive) >>= fun devices =>
          (pure ({ ata with devices := fillDevice devices drive }, 1) : Port (Driver × Nat)))
        answers).isSome ↔
      ∀ last status rest, settled answers = last :: status :: rest → Ready (status % 256) →
        asked ∨ asks (last % 256) ∨ asks (status % 256) := by
  rw [waitReady_guard]
  refine forall_congr' fun last => forall_congr' fun status => forall_congr' fun rest =>
    imp_congr_right fun shape => imp_congr_right fun ready => ?_
  rw [readBurst_iff, Bool.or_eq_true, Bool.or_eq_true, or_assoc]
  exact and_iff_left fun _ _ _ => rfl

theorem probe_eq : ataProbe ata drive =
    (ataSelectDrive ata drive >>= fun _ =>
      Port.outb (portAt (ata.base (drive / 2)) ataCommand) ataCmdIdentify >>= fun _ =>
      Port.inb (portAt (ata.base (drive / 2)) ataStatus) >>= fun first =>
      if first = 0 then pure (ata, 0)
      else ataWaitBusy (ata.base (drive / 2)) >>= fun _ =>
        Port.inb (portAt (ata.base (drive / 2)) ataStatus) >>= fun _ =>
        Port.inb (portAt (ata.base (drive / 2)) ataSectorNum) >>= fun mid =>
        Port.inb (portAt (ata.base (drive / 2)) ataCylLow) >>= fun high =>
        if mid ≠ 0 ∨ high ≠ 0 then pure (ata, 0)
        else ataWaitReady (ata.base (drive / 2)) >>= fun ready =>
          if ready = 0 then pure (ata, 0)
          else readWords (portAt (ata.base (drive / 2)) 0) 256 ata.devices (identifyAddress drive) >>=
            fun devices =>
              (pure ({ ata with devices := fillDevice devices drive }, 1) : Port (Driver × Nat))) := by
  simp only [ataProbe, awaitIdentify, Port.bind_assoc, Port.ite_bind, Port.pure_bind,
    Bool.false_eq_true, if_false, decide_eq_true_eq, ite_not]

theorem probe_asked_iff :
    DataAsked (ata.base (drive / 2)) (ataProbe ata drive) answers ↔ ProbeAsked answers := by
  have other_guard : ∀ register, register ≠ ataStatus → register < 65536 →
      ∀ (next : Nat → Port (Driver × Nat)) (burst : Burst) (answers : List Nat),
      (Port.watched (attend (ata.base (drive / 2))) burst
          (Port.inb (portAt (ata.base (drive / 2)) register) >>= next) answers).isSome ↔
        ∀ answer rest, answers = answer :: rest →
          (Port.watched (attend (ata.base (drive / 2))) burst (next (answer % 256)) rest).isSome :=
    fun register other small next burst answers =>
      inb_guard fun answer => attend_other (portAt_ne other small (by decide)) _
  have guarded : ∀ before answers, (Port.watched (attend (ata.base (drive / 2))) ⟨0, before⟩
      (Port.outb (portAt (ata.base (drive / 2)) ataCommand) ataCmdIdentify >>= fun _ =>
        Port.inb (portAt (ata.base (drive / 2)) ataStatus) >>= fun first =>
        if first = 0 then pure (ata, 0)
        else ataWaitBusy (ata.base (drive / 2)) >>= fun _ =>
          Port.inb (portAt (ata.base (drive / 2)) ataStatus) >>= fun _ =>
          Port.inb (portAt (ata.base (drive / 2)) ataSectorNum) >>= fun mid =>
          Port.inb (portAt (ata.base (drive / 2)) ataCylLow) >>= fun high =>
          if mid ≠ 0 ∨ high ≠ 0 then pure (ata, 0)
          else ataWaitReady (ata.base (drive / 2)) >>= fun ready =>
            if ready = 0 then pure (ata, 0)
            else readWords (portAt (ata.base (drive / 2)) 0) 256 ata.devices (identifyAddress drive) >>=
              fun devices =>
                (pure ({ ata with devices := fillDevice devices drive }, 1) : Port (Driver × Nat)))
      answers).isSome ↔
      ∀ first polled, answers = first :: polled → first % 256 ≠ 0 →
        ∀ idle more, (polled.dropWhile fun status => busy (status % 256)) = idle :: more →
        ∀ second rest, more = second :: rest → ∀ mid rest', rest = mid :: rest' →
        ∀ high between, rest' = high :: between → ¬ (mid % 256 ≠ 0 ∨ high % 256 ≠ 0) →
        ∀ last status rest, settled between = last :: status :: rest → Ready (status % 256) →
          (asks (first % 256) || asks (idle % 256) || asks (second % 256)) ∨ asks (last % 256) ∨
            asks (status % 256) := by
    intro before answers
    rw [Port.watched_outb, attend_outb, Option.bind_some]
    simp only [status_guard, return_guard, waitBusy_guard,
      other_guard ataSectorNum (by decide) (by decide),
      other_guard ataCylLow (by decide) (by decide), identify_guard, Bool.false_or]
  rw [probe_eq, selectDrive_guard (fun _ _ same => nomatch same) guarded, ProbeAsked]
  simp only [Bool.or_eq_true, or_assoc]
  constructor
  · intro asked first polled idle second mid high between last status rest start present idled
      low high' shape ready
    exact asked first polled start present idle _ idled second _ rfl mid _ rfl high between rfl
      (by omega) last status rest shape ready
  · intro asked first polled start present idle more idled second rest first' mid rest' second' high
      between third ata last status rest shape ready
    subst first' second' third
    exact asked first polled idle second mid high between last status rest start present idled
      (by omega) (by omega) shape ready

end

/-- Every burst has been asked for exactly when the statuses that the waits
before it read say so: no wait looks at DRQ. -/
theorem data_asked_iff (ata : Driver) (memory : Memory) (drive lba num buf : Nat)
    (answers : List Nat) :
    (DataAsked (ata.base (drive / 2)) (ataProbe ata drive) answers ↔ ProbeAsked answers) ∧
      (DataAsked (ata.base (ata.channel drive)) (ataReadSectors ata memory drive lba num buf)
          answers ↔
        CommandAsked ata drive num (ReadsAsked num) answers) ∧
      (DataAsked (ata.base (ata.channel drive)) (ataWriteSectors ata memory drive lba num buf)
          answers ↔
        CommandAsked ata drive num (WritesAsked false num) answers) :=
  ⟨probe_asked_iff, command_asked_iff fun _ => readSectors_asked_iff,
    command_asked_iff fun _ => writeSectors_asked_iff⟩

/-- A drive that is ready but has no data to give is read from. -/
theorem unrequested_sector_read :
    ¬ DataAsked 0x1F0 (ataReadSectors oneDrive (fun _ => 0) 0 5 1 0)
      (readyAnswers ++ [0, 0, 0, 0, 0x40, 0x40]) := by
  rw [DataAsked]
  decide

end Helios.Ata
