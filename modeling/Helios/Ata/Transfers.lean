import Helios.Ata.Addressing
import Helios.Data.Answers

namespace Helios.Ata

open Helios.Data

/-! Which words a transfer moves, and whether it comes to its end. -/

/-- BSY of a status. -/
def busy (status : Nat) : Bool := status &&& ataSrBsy ≠ 0

/-- What `ata_wait_ready` accepts: neither ERR nor DF, and DRDY. -/
def Ready (status : Nat) : Prop :=
  status &&& ataSrErr = 0 ∧ status &&& ataSrDf = 0 ∧ status &&& ataSrDrdy ≠ 0

instance : DecidablePred Ready := fun status =>
  inferInstanceAs (Decidable (status &&& ataSrErr = 0 ∧ status &&& ataSrDf = 0 ∧
    status &&& ataSrDrdy ≠ 0))

/-- The words that a log reads from a port. -/
def wordsFrom (port : Nat) (events : List (Access × Option Nat)) : List Nat :=
  events.filterMap fun event => if event.1 = .inw port then event.2 else none

/-- The command bytes of a channel and the words written to it. -/
def isTransfer (base : Nat) : Access → Bool
  | .outb port _ => port = portAt base ataCommand
  | .outw port _ => port = portAt base 0
  | _ => false

/-- A read of `num` sectors that returns `k`: the first `k` sectors of the buffer
are the words that were read, and nothing else has changed. -/
structure PartialRead (before : Memory) (buf num : Nat) (words : List Nat) (after : Memory)
    (k : Nat) : Prop where
  counted : k ≤ num
  stored : words = after.words buf (256 * k)
  kept : Memory.Confined buf (buf + 512 * k) before after

section

variable {ata : Driver} {memory after : Memory} {drive lba num code base buf port : Nat}
variable {answers rest : List Nat} {α : Type}

theorem waitReady_eq : ataWaitReady base =
    (Port.times 4 (Port.inb (portAt base ataAltStatus) >>= fun _ => pure ()) >>= fun _ =>
      ataWaitBusy base >>= fun _ => Port.inb (portAt base ataStatus) >>= fun status =>
        pure (if Ready status then 1 else 0)) := by
  have tested : ∀ status, (if status &&& ataSrErr ≠ 0 then (pure 0 : Port Nat)
      else if status &&& ataSrDf ≠ 0 then pure 0
      else if status &&& ataSrDrdy = 0 then pure 0 else pure 1) =
      pure (if Ready status then 1 else 0) := by
    intro status
    by_cases error : status &&& ataSrErr = 0
    · by_cases fault : status &&& ataSrDf = 0
      · by_cases unready : status &&& ataSrDrdy = 0
        · simp [Ready, error, fault, unready]
        · simp [Ready, error, fault, unready]
      · simp [Ready, error, fault]
    · simp [Ready, error]
  simp only [ataWaitReady, tested]

theorem waitBusy_regular : Port.Regular (ataWaitBusy base) := .pollWhile

theorem waitBusy_settles : Port.Settles (portAt base ataStatus) busy (ataWaitBusy base) :=
  .pollWhile

theorem delay_regular {count : Nat} :
    Port.Regular (Port.times count (Port.inb port >>= fun _ => pure ())) :=
  .times (.bind .inb fun _ => .pure)

theorem waitReady_regular : Port.Regular (ataWaitReady base) := by
  rw [waitReady_eq]
  exact .bind delay_regular fun _ => .bind waitBusy_regular fun _ => .bind .inb fun _ => .pure

theorem waitReady_settles : Port.Settles (portAt base ataStatus) busy (ataWaitReady base) := by
  rw [waitReady_eq]
  exact .bind delay_regular (.times (.bind .inb fun _ => .pure) (.bind .inb .inb fun _ => .pure))
    fun _ => .bind waitBusy_regular waitBusy_settles fun _ => .bind .inb .inb fun _ => .pure

theorem selectDrive_regular : Port.Regular (ataSelectDrive ata drive) :=
  .bind .outb fun _ => delay_regular

theorem selectDrive_settles {test : Nat → Bool} :
    Port.Settles port test (ataSelectDrive ata drive) :=
  .bind .outb .outb fun _ => .times (.bind .inb fun _ => .pure) (.bind .inb .inb fun _ => .pure)

theorem readWords_regular {count address : Nat} :
    Port.Regular (readWords base count memory address) := by
  induction count generalizing memory address with
  | zero => exact .pure
  | succ count ih => exact .bind .inw fun _ => ih

theorem readWords_settles {count address : Nat} {test : Nat → Bool} :
    Port.Settles port test (readWords base count memory address) := by
  induction count generalizing memory address with
  | zero => exact .pure
  | succ count ih => exact .bind .inw .inw fun _ => ih

theorem readSectors_settles {count done : Nat} :
    Port.Settles (portAt base ataStatus) busy (readSectors base done count memory buf) := by
  induction count generalizing memory done buf with
  | zero => exact .pure
  | succ count ih =>
      refine .bind waitReady_regular waitReady_settles fun ready => ?_
      split
      · exact .pure
      · exact .bind readWords_regular readWords_settles fun _ => ih

theorem setAddress_regular {slave : Nat} : Port.Regular (setAddress base lba num slave) :=
  .bind .outb fun _ => .bind .outb fun _ => .bind .outb fun _ => .bind .outb fun _ => .outb

theorem setAddress_settles {slave : Nat} {test : Nat → Bool} :
    Port.Settles port test (setAddress base lba num slave) :=
  .bind .outb .outb fun _ => .bind .outb .outb fun _ => .bind .outb .outb fun _ =>
    .bind .outb .outb fun _ => .outb

theorem command_settles {failed : α} {transfer : Nat → Port α}
    (settles : ∀ base, Port.Settles (portAt base ataStatus) busy (transfer base)) :
    Port.Settles (portAt (ata.base (ata.channel drive)) ataStatus) busy
      (command ata drive lba num code failed transfer) := by
  rw [command]
  split
  · exact .pure
  · split
    · exact .pure
    · refine .bind selectDrive_regular selectDrive_settles fun _ =>
        .bind waitReady_regular waitReady_settles fun ready => ?_
      split
      · exact .pure
      · exact .bind setAddress_regular setAddress_settles fun _ => .bind .outb .outb fun _ =>
          settles _

theorem wordsFrom_bytes {log : List Access} (bytes : ∀ access ∈ log, access.isByte) :
    wordsFrom port (heard log answers) = [] := by
  induction log generalizing answers with
  | nil => rfl
  | cons access log ih =>
      have later := fun answers => @ih answers fun other member => bytes other (by simp [member])
      have here := bytes access (by simp)
      cases access with
      | inb other => simpa [heard, wordsFrom] using later answers.tail
      | inw other => cases here
      | outb other value => simpa [heard, wordsFrom] using later answers
      | outw other value => cases here

theorem wordsFrom_append {front back : List (Access × Option Nat)} :
    wordsFrom port (front ++ back) = wordsFrom port front ++ wordsFrom port back :=
  List.filterMap_append

theorem waitBusy_bytes : Port.Keeps (fun access => access.isByte) (ataWaitBusy base) :=
  .pollWhile rfl

theorem waitReady_bytes : Port.Keeps (fun access => access.isByte) (ataWaitReady base) :=
  waitReady_keeps fun _ => rfl

theorem selectDrive_bytes : Port.Keeps (fun access => access.isByte) (ataSelectDrive ata drive) :=
  selectDrive_keeps (fun _ => rfl) rfl

theorem awaitDrive_bytes :
    Port.Keeps (fun access => access.isByte) (awaitDrive ata drive base) :=
  .bind selectDrive_bytes fun _ => waitReady_bytes

/-- A call with a value has failed without its command, or its drive was ready
and the transfer behind the command gave the value. -/
theorem command_result {failed value : α} {transfer : Nat → Port α}
    (finished : ((command ata drive lba num code failed transfer) answers).result =
      some (value, rest)) :
    (value = failed ∧ ∀ access ∈ ((command ata drive lba num code failed transfer) answers).log,
      access.isByte) ∨
    (ata.initialized = true ∧ ata.present drive ≠ 0 ∧ num ≠ 0) ∧ ∃ ready later,
      ((awaitDrive ata drive (ata.base (ata.channel drive))) answers).result = some (ready, later) ∧
      ((command ata drive lba num code failed transfer) answers).log =
        ((awaitDrive ata drive (ata.base (ata.channel drive))) answers).log ++
          (addressWrites (ata.base (ata.channel drive)) lba num (ata.drive drive) ++
            .outb (portAt (ata.base (ata.channel drive)) ataCommand) code ::
              (transfer (ata.base (ata.channel drive)) later).log) ∧
      (transfer (ata.base (ata.channel drive)) later).result = some (value, rest) := by
  by_cases absent : ata.initialized = false ∨ ata.present drive = 0
  · rw [command, if_pos absent] at finished ⊢
    cases finished
    exact .inl ⟨rfl, fun access member => absurd member List.not_mem_nil⟩
  · by_cases none : num = 0
    · rw [command, if_neg absent, if_pos none] at finished ⊢
      cases finished
      exact .inl ⟨rfl, fun access member => absurd member List.not_mem_nil⟩
    · obtain ⟨ready, present⟩ := not_or.mp absent
      rw [Bool.not_eq_false] at ready
      rw [command_eq ready present none] at finished ⊢
      obtain ⟨status, later, awaited, finished⟩ := Port.bind_result finished
      rw [Port.bind_finished awaited]
      by_cases unready : status = 0
      · rw [if_pos unready] at finished ⊢
        cases finished
        refine .inl ⟨rfl, fun access member => ?_⟩
        cases List.mem_append.mp member with
        | inl early => exact awaitDrive_bytes answers access early
        | inr late => cases late
      · rw [if_neg unready, setAddress_bind] at finished ⊢
        exact .inr ⟨⟨ready, present, none⟩, status, later, awaited, rfl, finished⟩

theorem readWords_moved {count address : Nat}
    (finished : ((readWords base count memory address) answers).result = some (after, rest)) :
    wordsFrom base (heard ((readWords base count memory address) answers).log answers) =
        after.words address count ∧
      Memory.Confined address (address + 2 * count) memory after := by
  induction count generalizing memory address answers with
  | zero =>
      cases finished
      exact ⟨rfl, .refl⟩
  | succ count ih =>
      obtain ⟨word, later, read, finished⟩ := Port.bind_result finished
      cases answers with
      | nil => cases read
      | cons answer answers =>
          cases read
          obtain ⟨moved, kept⟩ := ih finished
          have first : after.load16 address = answer % 65536 := by
            have stored := @Memory.load16_store16_same memory address _
              (Nat.mod_lt answer (show 0 < 65536 by decide))
            rw [← stored, Memory.load16, Memory.load16, kept address (by omega),
              kept (address + 1) (by omega)]
          refine ⟨?_, ?_⟩
          · rw [readWords, Port.heard_bind .inw rfl, wordsFrom_append, moved, Memory.words, first]
            simp [heard, wordsFrom, Port.inw]
          · have stored : Memory.Confined address (address + 2) memory
                (memory.store16 address (answer % 65536)) :=
              (Memory.Confined.refl.store8 (by omega) (by omega)).store8 (by omega) (by omega)
            exact (stored.mono (le_refl _) (by omega)).trans (kept.mono (by omega) (by omega))

/-- Sector by sector: what is in the buffer behind the sectors that have been
moved is what was there. -/
theorem readSectors_moved {count done total : Nat}
    (finished : ((readSectors base done count memory buf) answers).result =
      some ((after, total), rest)) :
    ∃ moved, moved ≤ count ∧ total = done + moved ∧
      wordsFrom (portAt base 0)
          (heard ((readSectors base done count memory buf) answers).log answers) =
        after.words buf (256 * moved) ∧
      Memory.Confined buf (buf + 512 * moved) memory after := by
  induction count generalizing memory done buf answers with
  | zero =>
      cases finished
      exact ⟨0, le_refl _, rfl, rfl, .refl⟩
  | succ count ih =>
      obtain ⟨ready, later, waited, finished⟩ := Port.bind_result finished
      have quiet := @wordsFrom_bytes (portAt base 0) answers _ (@waitReady_bytes base answers)
      rw [readSectors, Port.heard_bind waitReady_regular waited, wordsFrom_append, quiet]
      by_cases unready : ready = 0
      · rw [if_pos unready] at finished ⊢
        cases finished
        exact ⟨0, Nat.zero_le _, rfl, rfl, .refl⟩
      · rw [if_neg unready] at finished ⊢
        obtain ⟨middle, remaining, read, finished⟩ := Port.bind_result finished
        obtain ⟨sector, stored⟩ := readWords_moved read
        obtain ⟨moved, small, counted, others, kept⟩ := ih finished
        have untouched : after.words buf 256 = middle.words buf 256 :=
          Memory.words_congr fun position lower upper => kept position (.inl (by omega))
        refine ⟨moved + 1, by omega, by omega, ?_, ?_⟩
        · rw [Port.heard_bind readWords_regular read, wordsFrom_append, sector, others,
            show 256 * (moved + 1) = 256 + 256 * moved by omega, Memory.words_add, untouched,
            List.nil_append]
        · exact (stored.mono (le_refl _) (by omega)).trans (kept.mono (by omega) (by omega))

theorem awaitDrive_regular : Port.Regular (awaitDrive ata drive base) :=
  .bind selectDrive_regular fun _ => waitReady_regular

/-- Up to its command a call reads no words. -/
theorem wordsFrom_command {ready slave : Nat} {log : List Access}
    (awaited : ((awaitDrive ata drive base) answers).result = some (ready, rest)) :
    wordsFrom port (heard (((awaitDrive ata drive base) answers).log ++
        (addressWrites base lba num slave ++ .outb (portAt base ataCommand) code :: log)) answers) =
      wordsFrom port (heard log rest) := by
  have quiet := @wordsFrom_bytes port answers _ (@awaitDrive_bytes ata drive base answers)
  rw [heard_append, awaitDrive_regular.left awaited, wordsFrom_append, quiet]
  simp [addressWrites, heard, wordsFrom]

end

/-- A read of sectors ends unless a polling loop does not, and then the returned
count tells how much of the buffer has been read. -/
theorem partial_read_exact (ata : Driver) (memory : Memory) (drive lba num buf : Nat) :
    (∀ stream, ¬ Port.Hangs (portAt (ata.base (ata.channel drive)) ataStatus) busy
        (ataReadSectors ata memory drive lba num buf) stream →
      Port.Ends (ataReadSectors ata memory drive lba num buf) stream) ∧
    ∀ answers after k rest,
      ((ataReadSectors ata memory drive lba num buf) answers).result = some ((after, k), rest) →
      PartialRead memory buf num
          (wordsFrom (portAt (ata.base (ata.channel drive)) 0)
            (heard ((ataReadSectors ata memory drive lba num buf) answers).log answers)) after k ∧
        (ata.initialized = false ∨ ata.present drive = 0 ∨ num = 0 → k = 0) := by
  constructor
  · intro stream hangs
    exact (command_settles (fun _ => readSectors_settles) stream).resolve_right hangs
  · intro answers after k rest finished
    rw [ataReadSectors] at finished ⊢
    obtain ⟨failed, bytes⟩ | ⟨⟨ready, present, some_sectors⟩, status, later, awaited, log, moved⟩ :=
      command_result finished
    · cases failed
      refine ⟨⟨Nat.zero_le _, ?_, .refl⟩, fun _ => rfl⟩
      rw [wordsFrom_bytes bytes]
      rfl
    · obtain ⟨sectors, small, counted, words, kept⟩ := readSectors_moved moved
      rw [Nat.zero_add] at counted
      subst counted
      refine ⟨⟨small, ?_, kept⟩, fun idle => ?_⟩
      · rw [log, wordsFrom_command awaited, words]
      · simp [ready, present, some_sectors] at idle

/-- The drive reports an error when the first of two sectors is due. -/
theorem partial_read_exact_error : PartialRead (fun _ => 0) 0x1000 2 [] (fun _ => 0) 0 := by
  have none : wordsFrom 0x1F0 (heard ((ataReadSectors oneDrive (fun _ => 0) 0 5 2 0x1000)
      (readyAnswers ++ [0, 0, 0, 0, 0x40, 0x41])).log (readyAnswers ++ [0, 0, 0, 0, 0x40, 0x41])) =
      [] := by decide
  have moved := ((partial_read_exact oneDrive (fun _ => 0) 0 5 2 0x1000).2
    (readyAnswers ++ [0, 0, 0, 0, 0x40, 0x41]) (fun _ => 0) 0 [] rfl).1
  exact none ▸ moved

section

variable {ata : Driver} {memory : Memory} {drive lba num base buf done value : Nat}
variable {answers rest : List Nat}

/-- What a channel gets of the sectors behind a WRITE. -/
def sectorWrites (base : Nat) (memory : Memory) : Nat → Nat → List Access
  | _, 0 => []
  | buf, count + 1 =>
      (memory.words buf 256).map (.outw (portAt base 0)) ++
        .outb (portAt base ataCommand) ataCmdCacheFlush :: sectorWrites base memory (buf + 512) count

/-- The WRITE command stands once, the data words of all sectors follow it, and
other commands come before it or behind them. -/
def OneTransfer (base : Nat) (memory : Memory) (buf num : Nat) (log : List Access) : Prop :=
  ∃ before after, log.filter (isTransfer base) =
      before ++ .outb (portAt base ataCommand) ataCmdWritePio ::
        ((memory.words buf (256 * num)).map (.outw (portAt base 0)) ++ after) ∧
    ∀ access ∈ before ++ after, ∃ byte ≠ ataCmdWritePio,
      access = .outb (portAt base ataCommand) byte

theorem writeWords_log {count address : Nat} :
    writeWords base memory count address answers =
      ⟨(memory.words address count).map (.outw base), some ((), answers)⟩ := by
  induction count generalizing address with
  | zero => rfl
  | succ count ih =>
      have written : ((Port.outw base (memory.load16 address)) answers).result = some ((), answers) :=
        rfl
      rw [writeWords, Port.bind_finished written, ih]
      rfl

theorem waitReady_reads :
    Port.Keeps (fun access => ∃ port, access = .inb port) (ataWaitReady base) :=
  waitReady_keeps fun port => ⟨port, rfl⟩

theorem waitBusy_reads :
    Port.Keeps (fun access => ∃ port, access = .inb port) (ataWaitBusy base) :=
  .pollWhile ⟨_, rfl⟩

theorem reads_silent {log : List Access} (bytes : ∀ access ∈ log, ∃ port, access = .inb port) :
    log.filter (isTransfer base) = [] := by
  refine List.filter_eq_nil_iff.mpr fun access member => ?_
  obtain ⟨port, same⟩ := bytes access member
  simp [same, isTransfer]

theorem writeSectors_log {count : Nat}
    (finished : ((writeSectors base memory done count buf) answers).result = some (value, rest)) :
    value < done + count ∨ value = done + count ∧
      ((writeSectors base memory done count buf) answers).log.filter (isTransfer base) =
        sectorWrites base memory buf count := by
  induction count generalizing done buf answers with
  | zero =>
      cases finished
      exact .inr ⟨rfl, rfl⟩
  | succ count ih =>
      obtain ⟨ready, later, waited, finished⟩ := Port.bind_result finished
      rw [writeSectors, Port.bind_finished waited, List.filter_append, reads_silent (waitReady_reads answers)]
      by_cases unready : ready = 0
      · rw [if_pos unready] at finished ⊢
        cases finished
        exact .inl (by omega)
      · rw [if_neg unready] at finished ⊢
        obtain ⟨_, remaining, words, finished⟩ := Port.bind_result finished
        rw [Port.bind_finished words, writeWords_log]
        rw [writeWords_log] at words
        cases words
        obtain ⟨_, flushing, flushed, finished⟩ := Port.bind_result finished
        cases flushed
        obtain ⟨_, settled, waited, finished⟩ := Port.bind_result finished
        rw [Port.outb_bind, Port.bind_finished waited]
        cases ih finished with
        | inl short => exact .inl (by omega)
        | inr whole =>
            obtain ⟨same, sectors⟩ := whole
            have words : ((memory.words buf 256).map (.outw (portAt base 0))).filter
                (isTransfer base) = (memory.words buf 256).map (.outw (portAt base 0)) :=
              List.filter_eq_self.mpr (by simp [isTransfer])
            have flush : isTransfer base (.outb (portAt base ataCommand) ataCmdCacheFlush) := by
              simp [isTransfer]
            refine .inr ⟨by omega, ?_⟩
            rw [List.nil_append, List.filter_append, words, List.filter_cons_of_pos flush,
              List.filter_append, reads_silent (waitBusy_reads later), sectors]
            rfl

theorem sectorWrites_command {count : Nat} {access : Access}
    (member : access ∈ sectorWrites base memory buf count) :
    access ≠ .outb (portAt base ataCommand) ataCmdWritePio := by
  induction count generalizing buf with
  | zero => cases member
  | succ count ih =>
      rw [sectorWrites, List.mem_append, List.mem_map, List.mem_cons] at member
      obtain ⟨word, _, same⟩ | same | later := member
      · rw [← same]
        exact nofun
      · rw [same]
        simp [ataCmdCacheFlush, ataCmdWritePio]
      · exact ih later

/-- The parameter writes reach no command port. -/
theorem addressWrites_silent {slave : Nat} :
    (addressWrites base lba num slave).filter (isTransfer base) = [] := by
  simp [addressWrites, isTransfer, portAt_ne, ataSectorCount, ataSectorNum, ataCylLow,
    ataCylHigh, ataDriveHead, ataCommand]

/-- Before its command a call writes at most the drive to the command port. -/
theorem awaitDrive_commands : ∀ access ∈
    ((awaitDrive ata drive base) answers).log.filter (isTransfer base),
    ∃ byte ≠ ataCmdWritePio, access = .outb (portAt base ataCommand) byte := by
  have bytes : Port.Keeps (fun access => isTransfer base access →
      ∃ byte ≠ ataCmdWritePio, access = .outb (portAt base ataCommand) byte)
      (awaitDrive ata drive base) := by
    refine .bind (selectDrive_keeps (fun _ => nofun) fun reached => ?_) fun _ =>
      waitReady_keeps fun _ => nofun
    rw [selection, isTransfer, decide_eq_true_eq] at reached
    exact ⟨_, (@selection_ne drive _ (by decide)).symm, by rw [selection, reached]⟩
  intro access member
  obtain ⟨member, reached⟩ := List.mem_filter.mp member
  exact bytes answers access member reached

/-- What a channel gets from a write of all its sectors. -/
theorem write_log (positive : 0 < num)
    (finished : ((ataWriteSectors ata memory drive lba num buf) answers).result = some (num, rest)) :
    ∃ front, (∀ access ∈ front, ∃ byte ≠ ataCmdWritePio,
        access = .outb (portAt (ata.base (ata.channel drive)) ataCommand) byte) ∧
      ((ataWriteSectors ata memory drive lba num buf) answers).log.filter
          (isTransfer (ata.base (ata.channel drive))) =
        front ++ .outb (portAt (ata.base (ata.channel drive)) ataCommand) ataCmdWritePio ::
          sectorWrites (ata.base (ata.channel drive)) memory buf num := by
  rw [ataWriteSectors] at finished ⊢
  obtain ⟨failed, _⟩ | ⟨_, status, later, awaited, log, moved⟩ := command_result finished
  · omega
  · cases writeSectors_log moved with
    | inl short => omega
    | inr whole =>
        refine ⟨_, @awaitDrive_commands ata drive _ answers, ?_⟩
        rw [log, List.filter_append, List.filter_append, addressWrites_silent,
          List.filter_cons_of_pos (by simp [isTransfer]), whole.2, List.nil_append]

theorem oneTransfer_iff {log front : List Access} (positive : 0 < num)
    (commands : ∀ access ∈ front, ∃ byte ≠ ataCmdWritePio,
      access = .outb (portAt base ataCommand) byte)
    (shape : log.filter (isTransfer base) = front ++ .outb (portAt base ataCommand) ataCmdWritePio ::
      sectorWrites base memory buf num) :
    OneTransfer base memory buf num log ↔ num = 1 := by
  constructor
  · intro transfer
    obtain ⟨before, after, split, others⟩ := transfer
    have unissued : .outb (portAt base ataCommand) ataCmdWritePio ∉ front := fun member => by
      obtain ⟨byte, other, same⟩ := commands _ member
      exact other (Access.outb.inj same).2.symm
    have once : .outb (portAt base ataCommand) ataCmdWritePio ∉ sectorWrites base memory buf num :=
      fun member => sectorWrites_command member rfl
    rw [shape, List.append_cons_inj_of_notMem unissued once] at split
    obtain ⟨_, _, sectors⟩ := split
    match num with
    | 0 => omega
    | 1 => rfl
    | more + 2 =>
        -- The second sector starts where its first word is expected.
        have second : 256 * (more + 2) = 256 + (256 * more + 255 + 1) := by omega
        rw [sectorWrites, second, Memory.words_add, List.map_append, List.append_assoc,
          List.append_cancel_left_eq, Memory.words, List.map_cons, List.cons_append] at sectors
        cases List.head_eq_of_cons_eq sectors
  · intro one
    subst one
    refine ⟨front, [.outb (portAt base ataCommand) ataCmdCacheFlush], shape, fun access member => ?_⟩
    cases List.mem_append.mp member with
    | inl early => exact commands access early
    | inr late => exact ⟨ataCmdCacheFlush, by decide, List.mem_singleton.mp late⟩

theorem write_result {ready : Nat} {later : List Nat} (running : ata.initialized = true)
    (present : ata.present drive ≠ 0) (some_sectors : num ≠ 0)
    (awaited : ((awaitDrive ata drive (ata.base (ata.channel drive))) answers).result =
      some (ready, later)) (accepted : ready ≠ 0) :
    ((ataWriteSectors ata memory drive lba num buf) answers).result =
      ((writeSectors (ata.base (ata.channel drive)) memory 0 num buf) later).result := by
  rw [ataWriteSectors, command_eq running present some_sectors, Port.bind_finished awaited,
    if_neg accepted, setAddress_bind, Port.outb_bind]

/-- A sector for which the drive is ready, and the flush behind it. -/
theorem writeSectors_step {count ready : Nat} {later : List Nat}
    (waited : ((ataWaitReady base) answers).result = some (ready, later)) (accepted : ready ≠ 0)
    (flushed : ((ataWaitBusy base) later).result = some ((), rest)) :
    ((writeSectors base memory done (count + 1) buf) answers).result =
      ((writeSectors base memory (done + 1) count (buf + 512)) rest).result := by
  have words : ((writeWords (portAt base 0) memory 256 buf) later).result = some ((), later) := by
    rw [writeWords_log]
  rw [writeSectors, Port.bind_finished waited, if_neg accepted, Port.bind_finished words,
    Port.outb_bind, Port.bind_finished flushed]

end

/-- A write of all its sectors is one transfer exactly when it has one sector:
the cache flush behind each sector stands between it and the next. -/
theorem write_uninterrupted_iff (ata : Driver) (memory : Memory) (drive lba num buf : Nat)
    (answers rest : List Nat) (positive : 0 < num)
    (finished : ((ataWriteSectors ata memory drive lba num buf) answers).result = some (num, rest)) :
    OneTransfer (ata.base (ata.channel drive)) memory buf num
        ((ataWriteSectors ata memory drive lba num buf) answers).log ↔ num = 1 := by
  obtain ⟨front, commands, shape⟩ := write_log positive finished
  exact oneTransfer_iff positive commands shape

/-- The answers of a drive that is ready for a sector and then flushes it. -/
def sectorAnswers : List Nat := [0, 0, 0, 0, 0x58, 0x58, 0x50]

theorem write_uninterrupted_iff_one_sector :
    OneTransfer 0x1F0 (fun _ => 0) 0 1
      ((ataWriteSectors oneDrive (fun _ => 0) 0 5 1 0) (readyAnswers ++ sectorAnswers)).log := by
  have written : ((ataWriteSectors oneDrive (fun _ => 0) 0 5 1 0)
      (readyAnswers ++ sectorAnswers)).result = some (1, []) := by
    rw [write_result rfl (by decide) (by decide) rfl Nat.one_ne_zero]
    exact writeSectors_step rfl Nat.one_ne_zero rfl
  exact (write_uninterrupted_iff oneDrive (fun _ => 0) 0 5 1 0 (readyAnswers ++ sectorAnswers) []
    (by decide) written).mpr rfl

/-- A drive that takes two sectors gets the cache flush between them. -/
theorem two_sectors_interrupted :
    ((ataWriteSectors oneDrive (fun _ => 0) 0 5 2 0)
        (readyAnswers ++ sectorAnswers ++ sectorAnswers)).result = some (2, []) ∧
      ¬ OneTransfer 0x1F0 (fun _ => 0) 0 2
        ((ataWriteSectors oneDrive (fun _ => 0) 0 5 2 0)
          (readyAnswers ++ sectorAnswers ++ sectorAnswers)).log := by
  have written : ((ataWriteSectors oneDrive (fun _ => 0) 0 5 2 0)
      (readyAnswers ++ sectorAnswers ++ sectorAnswers)).result = some (2, []) := by
    rw [write_result rfl (by decide) (by decide) rfl Nat.one_ne_zero]
    exact (writeSectors_step rfl Nat.one_ne_zero rfl).trans
      (writeSectors_step rfl Nat.one_ne_zero rfl)
  obtain ⟨front, commands, shape⟩ := write_log (by decide) written
  exact ⟨written, fun transfer => absurd ((oneTransfer_iff (by decide) commands shape).mp transfer)
    (by decide)⟩

end Helios.Ata
