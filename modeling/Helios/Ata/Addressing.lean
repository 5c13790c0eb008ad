import Helios.Ata.Ports

namespace Helios.Ata

open Helios.Data

/-! The sectors that a READ or WRITE command names. -/

/-- What has been written to each port. -/
abbrev Registers := Nat → Option Nat

def written (registers : Registers) : List Access → Registers
  | [] => registers
  | .outb port value :: rest => written (Function.update registers port (some value)) rest
  | _ :: rest => written registers rest

/-- The registers at every command of the given code. -/
def issued (port code : Nat) (registers : Registers) : List Access → List Registers
  | [] => []
  | .outb other value :: rest =>
      let later := issued port code (Function.update registers other (some value)) rest
      if other = port ∧ value = code then registers :: later else later
  | _ :: rest => issued port code registers rest

/-- The registers at a command name the sectors `[lba, lba + num)` of the drive. -/
structure Addresses (ata : Driver) (drive lba num base : Nat) (registers : Registers) : Prop where
  count : registers (portAt base ataSectorCount) = some num
  address : ∃ low mid high head, registers (portAt base ataSectorNum) = some low ∧
    registers (portAt base ataCylLow) = some mid ∧ registers (portAt base ataCylHigh) = some high ∧
    registers (portAt base ataDriveHead) = some head ∧
    low + 256 * mid + 65536 * high + 16777216 * (head % 16) = lba ∧ head / 16 % 2 = drive % 2
  bounded : lba + num ≤ ata.size drive

/-- A call either returns 0 without its command, or its command names the right
sectors. -/
structure Faithful {α : Type} (ata : Driver) (drive lba num code : Nat) (returned : α → Nat)
    (trace : Trace α) : Prop where
  silent : issued (portAt (ata.base (ata.channel drive)) ataCommand) code (fun _ => none)
      trace.log = [] → ∀ value rest, trace.result = some (value, rest) → returned value = 0
  addressed : ∀ registers ∈ issued (portAt (ata.base (ata.channel drive)) ataCommand) code
      (fun _ => none) trace.log,
    Addresses ata drive lba num (ata.base (ata.channel drive)) registers

/-- The address fits the 28 bits of the command, the record has the drive's own
number, and the sectors exist. -/
structure Addressable (ata : Driver) (drive lba num : Nat) : Prop where
  short : lba < 2 ^ 28
  selected : ata.drive drive % 2 = drive % 2
  bounded : lba + num ≤ ata.size drive

section

variable {ata : Driver} {drive lba num code base slave : Nat} {answers : List Nat} {port : Nat}
variable {registers : Registers} {front back : List Access} {α : Type}

/-- The access is no command of the given code. -/
def Harmless (code : Nat) (access : Access) : Prop := ∀ port, access ≠ .outb port code

theorem issued_append (unissued : ∀ access ∈ front, access ≠ .outb port code) :
    issued port code registers (front ++ back) =
      issued port code (written registers front) back := by
  induction front generalizing registers with
  | nil => rfl
  | cons access rest ih =>
      have later := fun registers => @ih registers fun other member => unissued other (by simp [member])
      cases access with
      | outb other value =>
          have different : ¬ (other = port ∧ value = code) := fun same =>
            unissued (.outb other value) (by simp) (by rw [same.1, same.2])
          rw [List.cons_append, issued, if_neg different, later, written]
      | inb other => exact later registers
      | inw other => exact later registers
      | outw other value => exact later registers

theorem issued_harmless (harmless : ∀ access ∈ front, Harmless code access) :
    issued port code registers front = [] := by
  rw [← List.append_nil front, issued_append fun access member => harmless access member port, issued]

theorem waitReady_keeps {permitted : Access → Prop} (polls : ∀ port, permitted (.inb port)) :
    Port.Keeps permitted (ataWaitReady base) := by
  refine .bind (.times (.bind (.inb (polls _)) fun _ => .pure)) fun _ =>
    .bind (.pollWhile (polls _)) fun _ => .bind (.inb (polls _)) fun status => ?_
  split
  · exact .pure
  · split
    · exact .pure
    · split
      · exact .pure
      · exact .pure

theorem selectDrive_keeps {permitted : Access → Prop} (polls : ∀ port, permitted (.inb port))
    (selects : permitted (selection ata drive)) : Port.Keeps permitted (ataSelectDrive ata drive) :=
  .bind (.outb selects) fun _ => .times (.bind (.inb (polls _)) fun _ => .pure)

theorem waitBusy_harmless : Port.Keeps (Harmless code) (ataWaitBusy base) :=
  .pollWhile fun _ same => nomatch same

theorem waitReady_harmless : Port.Keeps (Harmless code) (ataWaitReady base) :=
  waitReady_keeps fun _ _ same => nomatch same

theorem selectDrive_harmless (other : code ≠ 0xA0 ||| (drive % 2) <<< 4) :
    Port.Keeps (Harmless code) (ataSelectDrive ata drive) :=
  selectDrive_keeps (fun _ _ same => nomatch same) fun _ same =>
    other (Access.outb.inj same).2.symm

theorem readWords_harmless {memory : Memory} {count address : Nat} :
    Port.Keeps (Harmless code) (readWords base count memory address) := by
  induction count generalizing memory address with
  | zero => exact .pure
  | succ count ih => exact .bind (.inw fun _ same => nomatch same) fun _ => ih

theorem readSectors_harmless {memory : Memory} {count done buffer : Nat} :
    Port.Keeps (Harmless code) (readSectors base done count memory buffer) := by
  induction count generalizing memory done buffer with
  | zero => exact .pure
  | succ count ih =>
      refine .bind waitReady_harmless fun ready => ?_
      split
      · exact .pure
      · exact .bind readWords_harmless fun _ => ih

theorem writeWords_harmless {memory : Memory} {count address : Nat} :
    Port.Keeps (Harmless code) (writeWords base memory count address) := by
  induction count generalizing address with
  | zero => exact .pure
  | succ count ih => exact .bind (.outw fun _ same => nomatch same) fun _ => ih

theorem writeSectors_harmless {memory : Memory} {count done buffer : Nat}
    (other : code ≠ ataCmdCacheFlush) :
    Port.Keeps (Harmless code) (writeSectors base memory done count buffer) := by
  have flushes : Harmless code (.outb (portAt base ataCommand) ataCmdCacheFlush) :=
    fun port same => other (Access.outb.inj same).2.symm
  induction count generalizing done buffer with
  | zero => exact .pure
  | succ count ih =>
      refine .bind waitReady_harmless fun ready => ?_
      split
      · exact .pure
      · exact .bind writeWords_harmless fun _ => .bind (.outb flushes) fun _ =>
          .bind waitBusy_harmless fun _ => ih

/-- The drive/head byte of a transfer. -/
def headByte (lba slave : Nat) : Nat := (0xE0 ||| slave <<< 4 ||| ((lba >>> 24) &&& 0x0F)) % 256

def addressWrites (base lba num slave : Nat) : List Access :=
  [.outb (portAt base ataSectorCount) num, .outb (portAt base ataSectorNum) (lba % 256),
    .outb (portAt base ataCylLow) ((lba >>> 8) % 256),
    .outb (portAt base ataCylHigh) ((lba >>> 16) % 256),
    .outb (portAt base ataDriveHead) (headByte lba slave)]

theorem setAddress_bind (next : Unit → Port α) :
    (setAddress base lba num slave >>= next) answers =
      ⟨addressWrites base lba num slave ++ (next () answers).log, (next () answers).result⟩ := by
  simp only [setAddress, Port.bind_assoc, Port.outb_bind]
  rfl

/-- The two calls up to the test of `ata_wait_ready`. -/
def awaitDrive (ata : Driver) (drive base : Nat) : Port Nat :=
  ataSelectDrive ata drive >>= fun _ => ataWaitReady base

theorem command_eq (ready : ata.initialized = true) (present : ata.present drive ≠ 0)
    (some_sectors : num ≠ 0) (failed : α) (transfer : Nat → Port α) :
    command ata drive lba num code failed transfer =
      (awaitDrive ata drive (ata.base (ata.channel drive)) >>= fun ready =>
        if ready = 0 then pure failed
        else setAddress (ata.base (ata.channel drive)) lba num (ata.drive drive) >>= fun _ =>
          Port.outb (portAt (ata.base (ata.channel drive)) ataCommand) code >>= fun _ =>
            transfer (ata.base (ata.channel drive))) := by
  rw [command, if_neg (by simp [ready, present]), if_neg some_sectors, awaitDrive, Port.bind_assoc]

theorem portAt_ne {left right : Nat} (different : left ≠ right) (first : left < 65536)
    (second : right < 65536) : portAt base left ≠ portAt base right := by
  unfold portAt
  omega

theorem headByte_eq : headByte lba slave % 16 = lba / 2 ^ 24 % 16 ∧
    headByte lba slave / 16 % 2 = slave % 2 := by
  have nibble : (lba >>> 24) &&& 0x0F = lba / 2 ^ 24 % 16 := by
    rw [Nat.shiftRight_eq_div_pow]
    exact Nat.and_two_pow_sub_one_eq_mod _ 4
  have small : lba / 2 ^ 24 % 16 < 2 ^ 4 := Nat.mod_lt _ (by decide)
  have high : 0xE0 ||| slave <<< 4 = (14 ||| slave) <<< 4 := by
    rw [Nat.shiftLeft_or_distrib]
    rfl
  have joined : headByte lba slave = ((14 ||| slave) * 16 + lba / 2 ^ 24 % 16) % 256 := by
    rw [headByte, nibble, high, ← Nat.shiftLeft_add_eq_or_of_lt small, Nat.shiftLeft_eq]
  have parity : (14 ||| slave) % 2 = slave % 2 := by
    have split := Nat.or_mod_two_pow (a := 14) (b := slave) (n := 1)
    simpa using split
  rw [joined]
  omega

/-- The registers when the command is written. -/
def addressed (registers : Registers) (base lba num slave : Nat) : Registers :=
  written registers (addressWrites base lba num slave)

theorem addressed_registers :
    addressed registers base lba num slave (portAt base ataSectorCount) = some num ∧
      addressed registers base lba num slave (portAt base ataSectorNum) = some (lba % 256) ∧
      addressed registers base lba num slave (portAt base ataCylLow) = some (lba / 256 % 256) ∧
      addressed registers base lba num slave (portAt base ataCylHigh) = some (lba / 65536 % 256) ∧
      addressed registers base lba num slave (portAt base ataDriveHead) =
        some (headByte lba slave) := by
  simp [addressed, addressWrites, written, portAt_ne, ataSectorCount,
    ataSectorNum, ataCylLow, ataCylHigh, ataDriveHead, Nat.shiftRight_eq_div_pow]

theorem addresses_iff :
    Addresses ata drive lba num base (addressed registers base lba num (ata.drive drive)) ↔
      Addressable ata drive lba num := by
  obtain ⟨count, low, mid, high, head⟩ :=
    @addressed_registers lba num base (ata.drive drive) registers
  obtain ⟨nibble, bit⟩ := @headByte_eq lba (ata.drive drive)
  constructor
  · intro addresses
    obtain ⟨lowByte, midByte, highByte, headValue, isLow, isMid, isHigh, isHead, total, selected⟩ :=
      addresses.address
    rw [low, Option.some.injEq] at isLow
    rw [mid, Option.some.injEq] at isMid
    rw [high, Option.some.injEq] at isHigh
    rw [head, Option.some.injEq] at isHead
    subst isLow isMid isHigh isHead
    rw [bit] at selected
    rw [nibble] at total
    exact ⟨by omega, selected, addresses.bounded⟩
  · intro addressable
    have short := addressable.short
    refine ⟨count, ⟨_, _, _, _, low, mid, high, head, ?_, bit.trans addressable.selected⟩,
      addressable.bounded⟩
    rw [nibble]
    omega

theorem issued_command (harmless : ∀ access ∈ back, Harmless code access) :
    issued (portAt base ataCommand) code registers
        (addressWrites base lba num slave ++ .outb (portAt base ataCommand) code :: back) =
      [addressed registers base lba num slave] := by
  have unissued : ∀ access ∈ addressWrites base lba num slave,
      access ≠ .outb (portAt base ataCommand) code := by
    simp [addressWrites, portAt_ne, ataSectorCount, ataSectorNum, ataCylLow, ataCylHigh,
      ataDriveHead, ataCommand]
  rw [issued_append unissued, issued, if_pos ⟨rfl, rfl⟩, issued_harmless harmless]
  rfl

/-- A call with a present drive fails before its command, or writes it once with
the registers set. -/
theorem command_cases (ready : ata.initialized = true) (present : ata.present drive ≠ 0)
    (some_sectors : num ≠ 0) (failed : α) (transfer : Nat → Port α)
    (other : code ≠ 0xA0 ||| (drive % 2) <<< 4)
    (harmless : ∀ base, Port.Keeps (Harmless code) (transfer base)) :
    (((awaitDrive ata drive (ata.base (ata.channel drive))) answers).result.all
        (fun pair => pair.1 = 0) ∧
      issued (portAt (ata.base (ata.channel drive)) ataCommand) code registers
        ((command ata drive lba num code failed transfer) answers).log = [] ∧
      ∀ value rest, ((command ata drive lba num code failed transfer) answers).result =
        some (value, rest) → value = failed) ∨
    ∃ before, issued (portAt (ata.base (ata.channel drive)) ataCommand) code registers
        ((command ata drive lba num code failed transfer) answers).log =
      [addressed before (ata.base (ata.channel drive)) lba num (ata.drive drive)] := by
  have quiet : Port.Keeps (Harmless code) (awaitDrive ata drive (ata.base (ata.channel drive))) :=
    .bind (selectDrive_harmless other) fun _ => waitReady_harmless
  rw [command_eq ready present some_sectors]
  cases result : (awaitDrive ata drive (ata.base (ata.channel drive)) answers).result with
  | none =>
      rw [Port.bind_waiting result]
      refine .inl ⟨rfl, issued_harmless (quiet answers), fun value rest same => ?_⟩
      cases same
  | some pair =>
      obtain ⟨value, rest⟩ := pair
      rw [Port.bind_finished result]
      by_cases unready : value = 0
      · rw [if_pos unready]
        refine .inl ⟨by simp [unready], ?_, fun other rest same => ?_⟩
        · refine issued_harmless fun access member => ?_
          cases List.mem_append.mp member with
          | inl early => exact quiet answers access early
          | inr late => cases late
        · cases same
          rfl
      · rw [if_neg unready, setAddress_bind]
        refine .inr ⟨written registers (awaitDrive ata drive (ata.base (ata.channel drive)) answers).log, ?_⟩
        rw [issued_append fun access member => quiet answers access member _, Port.outb_bind]
        exact issued_command (harmless _ rest)

/-- The answers of a drive that is ready at once. -/
def readyAnswers : List Nat := [0, 0, 0, 0, 0, 0, 0, 0, 0, ataSrDrdy]

theorem awaitDrive_ready :
    ((awaitDrive ata drive base) readyAnswers).result = some (1, []) := rfl

theorem command_faithful_iff (ready : ata.initialized = true) (present : ata.present drive ≠ 0)
    (some_sectors : num ≠ 0) {failed : α} {transfer : Nat → Port α} {returned : α → Nat}
    (other : code ≠ 0xA0 ||| (drive % 2) <<< 4) (zero : returned failed = 0)
    (harmless : ∀ base, Port.Keeps (Harmless code) (transfer base)) :
    (∀ answers, Faithful ata drive lba num code returned
        ((command ata drive lba num code failed transfer) answers)) ↔
      Addressable ata drive lba num := by
  constructor
  · intro faithful
    have addressed := (faithful readyAnswers).addressed
    cases @command_cases ata drive lba num code readyAnswers (fun _ => none) α ready present
        some_sectors failed transfer other harmless with
    | inl silent =>
        rw [awaitDrive_ready] at silent
        exact absurd silent.1 (by decide)
    | inr issues =>
        obtain ⟨before, issues⟩ := issues
        rw [issues] at addressed
        exact addresses_iff.mp (addressed _ (List.mem_singleton_self _))
  · intro addressable answers
    cases @command_cases ata drive lba num code answers (fun _ => none) α ready present
        some_sectors failed transfer other harmless with
    | inl silent =>
        refine ⟨fun _ value rest result => ?_, fun registers member => ?_⟩
        · rw [silent.2.2 value rest result, zero]
        · rw [silent.2.1] at member
          cases member
    | inr issues =>
        obtain ⟨before, issues⟩ := issues
        refine ⟨fun none => ?_, fun registers member => ?_⟩
        · rw [issues] at none
          cases none
        · rw [issues, List.mem_singleton] at member
          rw [member]
          exact addresses_iff.mpr addressable

theorem selection_ne (low : code < 0xA0) : code ≠ 0xA0 ||| (drive % 2) <<< 4 := by
  cases Nat.mod_two_eq_zero_or_one drive with
  | inl even =>
      rw [even]
      exact fun same => absurd low (by rw [same]; decide)
  | inr odd =>
      rw [odd]
      exact fun same => absurd low (by rw [same]; decide)

end

/-- The transfers of a present drive name the right sectors for all answers
exactly when the address has 28 bits, the record has the drive's number, and
the sectors exist. -/
theorem sectors_addressed_iff (ata : Driver) (memory : Memory) (drive lba num buf : Nat)
    (ready : ata.initialized = true) (present : ata.present drive ≠ 0) (some_sectors : num ≠ 0) :
    ((∀ answers, Faithful ata drive lba num ataCmdReadPio Prod.snd
        ((ataReadSectors ata memory drive lba num buf) answers)) ↔
      Addressable ata drive lba num) ∧
    ((∀ answers, Faithful ata drive lba num ataCmdWritePio id
        ((ataWriteSectors ata memory drive lba num buf) answers)) ↔
      Addressable ata drive lba num) := by
  constructor
  · exact command_faithful_iff ready present some_sectors (selection_ne (by decide)) rfl
      fun _ => readSectors_harmless
  · exact command_faithful_iff ready present some_sectors (selection_ne (by decide)) rfl
      fun _ => writeSectors_harmless (by decide)

theorem sectors_addressed_iff_first :
    Faithful oneDrive 0 5 2 ataCmdReadPio Prod.snd
      ((ataReadSectors oneDrive (fun _ => 0) 0 5 2 0) readyAnswers) :=
  (sectors_addressed_iff oneDrive (fun _ => 0) 0 5 2 0 rfl (by decide) (by decide)).1.mpr
    ⟨by decide, by decide, by decide⟩ readyAnswers

/-- A write to sector `2 ^ 28` of a drive with `2 ^ 20` sectors goes to sector 0. -/
theorem high_sector_wraps :
    oneDrive.size 0 = 2 ^ 20 ∧
    ∃ registers, issued (portAt 0x1F0 ataCommand) ataCmdWritePio (fun _ => none)
        ((ataWriteSectors oneDrive (fun _ => 0) 0 (2 ^ 28) 1 0) readyAnswers).log = [registers] ∧
      registers (portAt 0x1F0 ataSectorNum) = some 0 ∧
      registers (portAt 0x1F0 ataCylLow) = some 0 ∧ registers (portAt 0x1F0 ataCylHigh) = some 0 ∧
      registers (portAt 0x1F0 ataDriveHead) = some 0xE0 ∧
      ¬ Faithful oneDrive 0 (2 ^ 28) 1 ataCmdWritePio id
        ((ataWriteSectors oneDrive (fun _ => 0) 0 (2 ^ 28) 1 0) readyAnswers) := by
  refine ⟨by decide, ?_⟩
  cases @command_cases oneDrive 0 (2 ^ 28) 1 ataCmdWritePio readyAnswers (fun _ => none) Nat rfl
      (by decide) (by decide) 0 (fun base => writeSectors base (fun _ => 0) 0 1 0)
      (selection_ne (by decide)) (fun _ => writeSectors_harmless (by decide)) with
  | inl silent =>
      rw [awaitDrive_ready] at silent
      exact absurd silent.1 (by decide)
  | inr issues =>
      obtain ⟨before, issues⟩ := issues
      obtain ⟨_, low, mid, high, head⟩ := @addressed_registers (2 ^ 28) 1
        (oneDrive.base (oneDrive.channel 0)) (oneDrive.drive 0) before
      refine ⟨_, issues, low, mid, high, head, fun faithful => ?_⟩
      have addressed := faithful.addressed _ (by rw [ataWriteSectors, issues]; exact List.mem_singleton_self _)
      exact absurd (addresses_iff.mp addressed).short (by decide)

end Helios.Ata
