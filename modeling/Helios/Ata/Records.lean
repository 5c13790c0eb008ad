import Mathlib.Data.List.GetD
import Helios.Ata.Model

namespace Helios.Ata

open Helios.Data CType

/-! What a probe writes into the records of `devices`.

The transfer stores 512 bytes from the start of `identify` on, where the packed
structure has 494 and the record one more, so 17 bytes of the answer fall into
the next record. -/

/-- A byte of the answer to IDENTIFY. -/
def identifyByte (words : List Nat) (index : Nat) : UInt8 :=
  UInt8.ofNat (words.getD (index / 2) 0 / 256 ^ (index % 2))

/-- Memory after words of the answer have been stored. -/
def received (memory : Memory) (address count : Nat) (words : List Nat) : Memory := fun position =>
  if address ≤ position ∧ position < address + 2 * count then identifyByte words (position - address)
  else memory position

section

variable {ata after : Driver} {memory : Memory} {drive address count value base : Nat}
variable {answers words rest : List Nat}

theorem deviceAddress_eq : deviceAddress drive = 552 * drive := rfl
theorem presentAddress_eq : presentAddress drive = 552 * drive := rfl
theorem typeAddress_eq : typeAddress drive = 552 * drive + 1 := rfl
theorem channelAddress_eq : channelAddress drive = 552 * drive + 2 := rfl
theorem driveAddress_eq : driveAddress drive = 552 * drive + 3 := rfl
theorem sizeAddress_eq : sizeAddress drive = 552 * drive + 12 := rfl
theorem modelAddress_eq : modelAddress drive = 552 * drive + 16 := rfl
theorem identifyAddress_eq : identifyAddress drive = 552 * drive + 57 := rfl

theorem swapPairs_confined {low high : Nat} {before : Memory}
    (confined : Memory.Confined low high before memory) (lower : low ≤ address)
    (upper : address + 2 * count ≤ high) :
    Memory.Confined low high before (swapPairs count memory address) := by
  induction count generalizing memory address with
  | zero => exact confined
  | succ count ih =>
      exact ih ((confined.store8 lower (by omega)).store8 (by omega) (by omega)) (by omega) (by omega)

theorem strncpy_confined {low high src : Nat} {before : Memory}
    (confined : Memory.Confined low high before memory) (lower : low ≤ address)
    (upper : address + count ≤ high) :
    Memory.Confined low high before (strncpy count memory address src) := by
  induction count generalizing memory address src with
  | zero => exact confined
  | succ count ih =>
      rw [strncpy]
      split
      · exact confined.fill lower upper
      · exact ih (confined.store8 lower (by omega)) (by omega) (by omega)

theorem fixStrings_confined {low high : Nat} {before : Memory}
    (confined : Memory.Confined low high before memory) (lower : low ≤ address + 20)
    (upper : address + 75 ≤ high) :
    Memory.Confined low high before (fixStrings memory address) := by
  have serial : Memory.Confined low high before
      ((swapPairs 10 memory (address + 54)).store8 (address + 74) 0) :=
    (swapPairs_confined confined (by omega) (by omega)).store8 (by omega) (by omega)
  have firmware : Memory.Confined low high before
      ((swapPairs 4 ((swapPairs 10 memory (address + 54)).store8 (address + 74) 0)
        (address + 46)).store8 (address + 54) 0) :=
    (swapPairs_confined serial (by omega) (by omega)).store8 (by omega) (by omega)
  exact (swapPairs_confined firmware (by omega) (by omega)).store8 (by omega) (by omega)

theorem fillDevice_later :
    Memory.Confined (552 * drive + 1) (552 * drive + 552)
      ((fixStrings memory (552 * drive + 57)).store8 (552 * drive) 1) (fillDevice memory drive) := by
  rw [fillDevice]
  simp only [presentAddress_eq, typeAddress_eq, channelAddress_eq, driveAddress_eq, sizeAddress_eq,
    modelAddress_eq, identifyAddress_eq]
  have marked : ∀ type channel slave : UInt8, Memory.Confined (552 * drive + 1) (552 * drive + 552)
      ((fixStrings memory (552 * drive + 57)).store8 (552 * drive) 1)
      (((((fixStrings memory (552 * drive + 57)).store8 (552 * drive) 1).store8
        (552 * drive + 1) type).store8 (552 * drive + 2) channel).store8 (552 * drive + 3) slave) :=
    fun _ _ _ => ((Memory.Confined.refl.store8 (by omega) (by omega)).store8 (by omega)
      (by omega)).store8 (by omega) (by omega)
  exact ((strncpy_confined (marked _ _ _) (by omega) (by omega)).store8 (by omega) (by omega)).store32
    (by omega) (by omega)

/-- Behind the transfer a probe writes only to its own record. -/
theorem fillDevice_confined :
    Memory.Confined (552 * drive) (552 * drive + 552) memory (fillDevice memory drive) := by
  have strings : Memory.Confined (552 * drive) (552 * drive + 552) memory
      (fixStrings memory (552 * drive + 57)) := fixStrings_confined .refl (by omega) (by omega)
  exact (strings.store8 (le_refl _) (by omega)).trans (fillDevice_later.mono (by omega) (le_refl _))

theorem fillDevice_present : fillDevice memory drive (552 * drive) = 1 := by
  rw [fillDevice_later (552 * drive) (by omega), Memory.store8_same]

theorem identifyByte_cons {word index : Nat} :
    identifyByte (word :: words) (index + 2) = identifyByte words index := by
  have half : (index + 2) / 2 = index / 2 + 1 := by omega
  have parity : (index + 2) % 2 = index % 2 := by omega
  rw [identifyByte, half, parity, List.getD_cons_succ, identifyByte]

theorem store16_eq {word position : Nat} (inside : address ≤ position ∧ position < address + 2) :
    memory.store16 address (word % 65536) position = identifyByte (word :: words) (position - address) := by
  have place : position = address ∨ position = address + 1 := by omega
  apply UInt8.toNat_inj.mp
  cases place with
  | inl low =>
      subst low
      simp [Memory.store16, Memory.store8, identifyByte]
  | inr high =>
      subst high
      simp [Memory.store16, Memory.store8, identifyByte]
      omega

theorem received_cons {word : Nat} :
    received (memory.store16 address (word % 65536)) (address + 2) count words =
      received memory address (count + 1) (word :: words) := by
  funext position
  by_cases inside : address ≤ position ∧ position < address + 2
  · rw [received, received, if_neg (by omega), if_pos (by omega), store16_eq inside]
  · have kept : memory.store16 address (word % 65536) position = memory position := by
      rw [Memory.store16, Memory.store8_other (by omega), Memory.store8_other (by omega)]
    rw [received, received, kept]
    by_cases later : address + 2 ≤ position ∧ position < address + 2 + 2 * count
    · have shifted : position - address = position - (address + 2) + 2 := by omega
      rw [if_pos later, if_pos (by omega), shifted, identifyByte_cons]
    · rw [if_neg later, if_neg (by omega)]

theorem readWords_result {after : Memory}
    (finished : ((readWords base count memory address) answers).result = some (after, rest)) :
    after = received memory address count answers ∧ rest = answers.drop count := by
  induction count generalizing memory address answers with
  | zero =>
      cases finished
      refine ⟨?_, rfl⟩
      funext position
      rw [received, if_neg (by omega)]
  | succ count ih =>
      obtain ⟨word, later, read, finished⟩ := Port.bind_result finished
      cases answers with
      | nil => cases read
      | cons answer answers =>
          cases read
          obtain ⟨stored, remaining⟩ := ih finished
          exact ⟨stored.trans received_cons, remaining⟩

/-- The state after a probe whose drive answers IDENTIFY. -/
def identified (ata : Driver) (drive : Nat) (words : List Nat) : Driver :=
  { ata with
    devices := fillDevice (received ata.devices (identifyAddress drive) 256 words) drive }

theorem probe_cases (finished : ((ataProbe ata drive) answers).result = some ((after, value), rest)) :
    (((awaitIdentify ata drive) answers).result = some (false, rest) ∧ after = ata ∧ value = 0) ∨
      ∃ words, ((awaitIdentify ata drive) answers).result = some (true, words) ∧
        rest = words.drop 256 ∧ after = identified ata drive words ∧ value = 1 := by
  obtain ⟨answered, later, awaited, finished⟩ := Port.bind_result finished
  cases answered with
  | false =>
      cases finished
      exact .inl ⟨awaited, rfl, rfl⟩
  | true =>
      obtain ⟨devices, remaining, transferred, finished⟩ := Port.bind_result finished
      obtain ⟨stored, dropped⟩ := readWords_result transferred
      cases finished
      exact .inr ⟨later, awaited, dropped, by rw [stored]; rfl, rfl⟩

/-- Outside its record a probe that gets the answer stores 17 bytes of it. -/
theorem identified_outside {position : Nat}
    (outside : position < 552 * drive ∨ 552 * drive + 552 ≤ position) :
    (identified ata drive words).devices position =
      if 552 * (drive + 1) ≤ position ∧ position < 552 * (drive + 1) + 17 then
        identifyByte words (495 + (position - 552 * (drive + 1)))
      else ata.devices position := by
  have stored : (identified ata drive words).devices =
      fillDevice (received ata.devices (identifyAddress drive) 256 words) drive := rfl
  rw [stored, fillDevice_confined position outside, received, identifyAddress_eq]
  by_cases spilled : 552 * (drive + 1) ≤ position ∧ position < 552 * (drive + 1) + 17
  · have index : position - (552 * drive + 57) = 495 + (position - 552 * (drive + 1)) := by omega
    rw [if_pos spilled, if_pos (by omega), index]
  · rw [if_neg spilled, if_neg (by omega)]

/-- The bytes of the answer that do not fit equal what is there already. -/
def Fits (ata : Driver) (drive : Nat) (words : List Nat) : Prop :=
  ∀ index < 17, identifyByte words (495 + index) = ata.devices (552 * (drive + 1) + index)

theorem probe_confined_iff
    (finished : ((ataProbe ata drive) answers).result = some ((after, value), rest)) :
    Memory.Confined (deviceAddress drive) (deviceAddress (drive + 1)) ata.devices after.devices ↔
      ∀ words, ((awaitIdentify ata drive) answers).result = some (true, words) →
        Fits ata drive words := by
  obtain ⟨awaited, same, _⟩ | ⟨words, awaited, _, same, _⟩ := probe_cases finished
  · subst same
    refine ⟨fun _ words answered => ?_, fun _ => .refl⟩
    rw [awaited] at answered
    cases answered
  · subst same
    rw [deviceAddress_eq, deviceAddress_eq]
    constructor
    · intro confined other answered index small
      rw [awaited] at answered
      cases answered
      have kept := confined (552 * (drive + 1) + index) (by omega)
      rw [identified_outside (by omega), if_pos (by omega), Nat.add_sub_cancel_left] at kept
      exact kept
    · intro fits position outside
      rw [identified_outside (by omega)]
      split
      · have same := fits words awaited (position - 552 * (drive + 1)) (by omega)
        rw [same, Nat.add_sub_cancel' (by omega)]
      · rfl

/-- What each drive of a row answers: nothing that a probe accepts, or the
words behind its acceptance. -/
def sessions (ata : Driver) : Nat → Nat → List Nat → List (Option (List Nat))
  | _, 0, _ => []
  | drive, count + 1, answers =>
      match ((awaitIdentify ata drive) answers).result with
      | none => []
      | some (false, rest) => none :: sessions ata (drive + 1) count rest
      | some (true, words) => some words :: sessions ata (drive + 1) count (words.drop 256)

def Accepted (answers : List (Option (List Nat))) (index : Nat) : Prop :=
  ∃ words, answers[index]? = some (some words)

/-- The answer of the drive before has a byte that falls on `present`; `first`
is whether that of the first record is set from the start. -/
def Spilled (answers : List (Option (List Nat))) (first : Prop) : Nat → Prop
  | 0 => first
  | index + 1 => ∃ words, answers[index]? = some (some words) ∧ identifyByte words 495 ≠ 0

theorem identified_present : (identified ata drive words).present drive = 1 := by
  have marked : (identified ata drive words).devices (552 * drive) = 1 := fillDevice_present
  rw [Driver.present, presentAddress_eq, marked]
  rfl

theorem identified_next : (identified ata drive words).present (drive + 1) ≠ 0 ↔
    identifyByte words 495 ≠ 0 := by
  rw [Driver.present, presentAddress_eq, identified_outside (by omega), if_pos (by omega),
    Nat.sub_self, Nat.add_zero]
  exact not_congr (UInt8.toNat_inj (b := 0))

theorem identified_far {other : Nat} (apart : other < drive ∨ drive + 1 < other) :
    (identified ata drive words).present other = ata.present other := by
  rw [Driver.present, presentAddress_eq, identified_outside (by omega), if_neg (by omega)]
  rfl

/-- What a row of probes leaves in the records. -/
structure Probed (before : Driver) (drive : Nat) (answers : List (Option (List Nat))) (after : Driver)
    (results : List Nat) : Prop where
  earlier : ∀ other < drive, after.present other = before.present other
  returned : ∀ index, results[index]? = some 1 ↔ Accepted answers index
  present : ∀ index < results.length, after.present (drive + index) ≠ 0 ↔
    Accepted answers index ∨ Spilled answers (before.present drive ≠ 0) index

theorem Probed.nil : Probed ata drive [] ata [] := by
  refine ⟨fun _ _ => rfl, fun index => ?_, fun index small => absurd small (Nat.not_lt_zero _)⟩
  simp [Accepted]

theorem Probed.cons {middle : Driver} {found : Nat} {session : Option (List Nat)}
    {later : List (Option (List Nat))} {others : List Nat}
    (probed : Probed middle (drive + 1) later after others)
    (kept : ∀ other < drive, middle.present other = ata.present other)
    (here : middle.present drive ≠ 0 ↔ (∃ words, session = some words) ∨ ata.present drive ≠ 0)
    (next : 0 < others.length → (middle.present (drive + 1) ≠ 0 ↔
      ∃ words, session = some words ∧ identifyByte words 495 ≠ 0))
    (returned : found = 1 ↔ ∃ words, session = some words) :
    Probed ata drive (session :: later) after (found :: others) := by
  refine ⟨fun other small => ?_, fun index => ?_, fun index small => ?_⟩
  · rw [probed.earlier other (by omega), kept other small]
  · cases index with
    | zero => simpa [Accepted] using returned
    | succ index => simpa [Accepted] using probed.returned index
  · cases index with
    | zero =>
        rw [Nat.add_zero, probed.earlier drive (by omega), here]
        simp [Accepted, Spilled]
    | succ index =>
        have within : index < others.length := by simpa using small
        have row := probed.present index within
        rw [show drive + (index + 1) = drive + 1 + index by omega, row]
        cases index with
        | zero => simp [Accepted, Spilled, next (by omega)]
        | succ index => simp [Accepted, Spilled]

theorem awaitIdentify_channels (same : after.channels = ata.channels) :
    awaitIdentify after drive = awaitIdentify ata drive := by
  simp only [awaitIdentify, ataSelectDrive, Driver.base, same]

theorem sessions_channels (same : after.channels = ata.channels) :
    sessions after drive count answers = sessions ata drive count answers := by
  induction count generalizing drive answers with
  | zero => rfl
  | succ count ih => simp only [sessions, awaitIdentify_channels same, ih]

theorem probeFrom_probed {results : List Nat}
    (finished : ((probeFrom ata drive count) answers).result = some ((after, results), rest))
    (clear : ∀ other, drive < other → other < drive + count → ata.present other = 0) :
    Probed ata drive (sessions ata drive count answers) after results ∧ results.length = count := by
  induction count generalizing ata drive answers results with
  | zero =>
      cases finished
      exact ⟨.nil, rfl⟩
  | succ count ih =>
      obtain ⟨⟨middle, found⟩, later, probed, finished⟩ := Port.bind_result finished
      obtain ⟨⟨final, others⟩, last, continued, finished⟩ := Port.bind_result finished
      cases finished
      obtain ⟨awaited, same, zero⟩ | ⟨words, awaited, dropped, same, one⟩ := probe_cases probed
      · subst same
        obtain ⟨row, length⟩ := ih continued fun other above below => clear other (by omega) (by omega)
        refine ⟨?_, by rw [List.length_cons, length]⟩
        rw [sessions, awaited]
        refine row.cons (fun _ _ => rfl) (by simp) (fun some_left => ?_) (by simp [zero])
        simp [clear (drive + 1) (by omega) (by omega)]
      · subst same
        obtain ⟨row, length⟩ := ih continued fun other above below =>
          (identified_far (.inr above)).trans (clear other (by omega) (by omega))
        refine ⟨?_, by rw [List.length_cons, length]⟩
        rw [sessions, awaited]
        have channels : (identified ata drive words).channels = ata.channels := rfl
        rw [sessions_channels channels, dropped] at row
        refine row.cons (fun other small => identified_far (.inl small)) ?_ (fun _ => ?_) (by simp [one])
        · simp [identified_present]
        · simp [identified_next]

theorem clearDevices_present {other : Nat} (small : other < count) :
    clearDevices memory count (552 * other) = 0 := by
  induction count with
  | zero => exact absurd small (Nat.not_lt_zero _)
  | succ count ih =>
      rw [clearDevices, presentAddress_eq, sizeAddress_eq, modelAddress_eq,
        Memory.store8_other (by omega), Memory.store32_other (by omega)]
      by_cases same : other = count
      · rw [same, Memory.store8_same]
      · rw [Memory.store8_other (by omega)]
        exact ih (by omega)

/-- The state in which `init_ata` starts to probe. -/
def cleared (ata : Driver) : Driver :=
  { ata with channels := setChannels ata.channels, devices := clearDevices ata.devices 4 }

theorem cleared_present {other : Nat} (small : other < 4) : (cleared ata).present other = 0 := by
  have zero : (cleared ata).devices (552 * other) = 0 := clearDevices_present small
  rw [Driver.present, presentAddress_eq, zero]
  rfl

theorem initAta_probed {results : List Nat}
    (finished : ((initAta ata) answers).result = some ((after, results), rest)) :
    ∃ last, after = { last with initialized := true } ∧
      Probed (cleared ata) 0 (sessions (cleared ata) 0 4 answers) last results ∧
      results.length = 4 := by
  obtain ⟨⟨last, found⟩, remaining, probed, finished⟩ := Port.bind_result finished
  cases finished
  exact ⟨last, rfl, probeFrom_probed probed fun other _ below => cleared_present (by omega)⟩

/-- An answer whose byte falls on the next `present` is followed by a drive
that is there. -/
def Followed (answers : List (Option (List Nat))) : Prop :=
  ∀ index words, index < 3 → answers[index]? = some (some words) → identifyByte words 495 ≠ 0 →
    Accepted answers (index + 1)

theorem present_iff {results : List Nat}
    (finished : ((initAta ata) answers).result = some ((after, results), rest)) :
    (∀ drive < 4, after.present drive ≠ 0 ↔ results[drive]? = some 1) ↔
      Followed (sessions (cleared ata) 0 4 answers) := by
  obtain ⟨last, same, probed, length⟩ := initAta_probed finished
  have states : ∀ drive < 4, after.present drive ≠ 0 ↔
      Accepted (sessions (cleared ata) 0 4 answers) drive ∨
        Spilled (sessions (cleared ata) 0 4 answers) False drive := by
    intro drive small
    have row := probed.present drive (by omega)
    rw [Nat.zero_add, cleared_present (by omega)] at row
    have unchanged : after.present drive = last.present drive := by
      rw [same]
      rfl
    rw [unchanged]
    simpa using row
  constructor
  · intro marks index words small answered spilled
    have marked := (states (index + 1) (by omega)).mpr (.inr ⟨words, answered, spilled⟩)
    exact (probed.returned _).mp ((marks (index + 1) (by omega)).mp marked)
  · intro followed drive small
    rw [states drive small, probed.returned]
    constructor
    · intro marked
      cases marked with
      | inl accepted => exact accepted
      | inr spilled =>
          cases drive with
          | zero => cases spilled
          | succ index =>
              obtain ⟨words, answered, byte⟩ := spilled
              exact followed index words (by omega) answered byte
    · exact .inl

theorem readWords_finishes :
    ((readWords base count memory address) answers).result.isSome ↔ count ≤ answers.length := by
  induction count generalizing memory address answers with
  | zero => exact ⟨fun _ => Nat.zero_le _, fun _ => rfl⟩
  | succ count ih =>
      cases answers with
      | nil =>
          have waiting : ((Port.inw base) []).result = none := rfl
          rw [readWords, Port.bind_waiting waiting]
          simp
      | cons answer answers =>
          have read : ((Port.inw base) (answer :: answers)).result = some (answer % 65536, answers) := rfl
          rw [readWords, Port.bind_finished read, List.length_cons, Nat.add_le_add_iff_right]
          exact ih

theorem probe_accepts (awaited : ((awaitIdentify ata drive) answers).result = some (true, words))
    (enough : 256 ≤ words.length) :
    ((ataProbe ata drive) answers).result =
      some ((identified ata drive words, 1), words.drop 256) := by
  obtain ⟨⟨devices, remaining⟩, transferred⟩ := Option.isSome_iff_exists.mp
    ((@readWords_finishes ata.devices (identifyAddress drive) 256
      (portAt (ata.base (drive / 2)) 0) words).mpr enough)
  obtain ⟨stored, dropped⟩ := readWords_result transferred
  rw [ataProbe, Port.bind_finished awaited, if_pos rfl, Port.bind_finished transferred, stored, dropped]
  rfl

theorem probe_rejects (awaited : ((awaitIdentify ata drive) answers).result = some (false, rest)) :
    ((ataProbe ata drive) answers).result = some ((ata, 0), rest) := by
  rw [ataProbe, Port.bind_finished awaited]
  rfl

theorem probeFrom_cons {middle : Driver} {found : Nat} {later : List Nat} {results : List Nat}
    (probed : ((ataProbe ata drive) answers).result = some ((middle, found), later))
    (continued : ((probeFrom middle (drive + 1) count) later).result = some ((after, results), rest)) :
    ((probeFrom ata drive (count + 1)) answers).result = some ((after, found :: results), rest) := by
  have extended : ((probeFrom middle (drive + 1) count >>= fun pair =>
      (pure (pair.1, found :: pair.2) : Port (Driver × List Nat))) later).result =
      some ((after, found :: results), rest) := by
    rw [Port.bind_finished continued]
    rfl
  rw [probeFrom, Port.bind_finished probed]
  exact extended

/-- The answers up to the transfer of a drive that is ready at once. -/
def acceptance : List Nat := [0, 0, 0, 0, 0x40, 0x40, 0x40, 0, 0, 0, 0, 0, 0, 0x40, 0x40]

/-- A drive that is not there. -/
def rejection : List Nat := [0, 0, 0, 0, 0]

def blank : Driver := ⟨fun _ => primary, fun _ => 0, false⟩

/-- Three drives that are not there. -/
abbrev rejections : List Nat := rejection ++ (rejection ++ rejection)

/-- The primary master is the only drive. -/
theorem initAta_master (full : words.length = 256) :
    ((ataProbe (cleared blank) 0) (acceptance ++ (words ++ rejections))).result =
      some ((identified (cleared blank) 0 (words ++ rejections), 1), rejections) ∧
    ((initAta blank) (acceptance ++ (words ++ rejections))).result =
      some (({ identified (cleared blank) 0 (words ++ rejections) with initialized := true },
        [1, 0, 0, 0]), []) := by
  have awaited : ((awaitIdentify (cleared blank) 0) (acceptance ++ (words ++ rejections))).result =
      some (true, words ++ rejections) := rfl
  have accepted := probe_accepts awaited (by rw [List.length_append, full]; omega)
  rw [List.drop_left' full] at accepted
  refine ⟨accepted, ?_⟩
  generalize identified (cleared blank) 0 (words ++ rejections) = middle at accepted
  have none : ((probeFrom middle 4 0) []).result = some ((middle, []), []) := rfl
  have fourth := probeFrom_cons (@probe_rejects middle 3 rejection [] rfl) none
  have third := probeFrom_cons (@probe_rejects middle 2 (rejection ++ rejection) rejection rfl) fourth
  have second := probeFrom_cons (@probe_rejects middle 1 rejections (rejection ++ rejection) rfl) third
  rw [initAta]
  exact congrArg Trace.result (Port.bind_finished (probeFrom_cons accepted second))

theorem sessions_master (full : words.length = 256) :
    sessions (cleared blank) 0 4 (acceptance ++ (words ++ rejections)) =
      [some (words ++ rejections), none, none, none] := by
  have awaited : ((awaitIdentify (cleared blank) 0) (acceptance ++ (words ++ rejections))).result =
      some (true, words ++ rejections) := rfl
  rw [sessions, awaited]
  simp only [List.drop_left' full]
  rfl

/-- IDENTIFY data that is all zero. -/
def emptyWords : List Nat := List.replicate 256 0

theorem emptyWords_byte {index : Nat} (inside : index < 512) :
    identifyByte (emptyWords ++ words) index = 0 := by
  rw [identifyByte, emptyWords, List.getD_append _ _ _ _ (by rw [List.length_replicate]; omega),
    List.getD_replicate _ (by omega), Nat.zero_div]
  rfl

/-- IDENTIFY data whose byte 495 is set. -/
def sampleWords : List Nat := List.replicate 247 0 ++ [0x100] ++ List.replicate 8 0

theorem sampleWords_length : sampleWords.length = 256 := by
  simp only [sampleWords, List.length_append, List.length_replicate, List.length_cons,
    List.length_nil]

theorem sampleWords_byte (more : List Nat) : identifyByte (sampleWords ++ more) 495 = 1 := by
  have place : (sampleWords ++ more).getD 247 0 = 0x100 := by
    rw [sampleWords, List.append_assoc, List.append_assoc,
      List.getD_append_right _ _ _ _ (by rw [List.length_replicate]), List.length_replicate]
    rfl
  rw [identifyByte, place]
  rfl

end

/-- A probe that ends stays within its record exactly when the last 17 bytes of
the answer, if it gets one, are in place already; and after `init_ata` the
drives marked present are those whose probe returned 1 exactly when no answer
marks a drive that is not there. -/
theorem probe_touches_own_record_iff (ata : Driver) (answers : List Nat) :
    (∀ drive < 4, ∀ after value rest,
        ((ataProbe ata drive) answers).result = some ((after, value), rest) →
      (Memory.Confined (deviceAddress drive) (deviceAddress (drive + 1)) ata.devices after.devices ↔
        ∀ words, ((awaitIdentify ata drive) answers).result = some (true, words) →
          Fits ata drive words)) ∧
      ∀ after results rest, ((initAta ata) answers).result = some ((after, results), rest) →
        ((∀ drive < 4, after.present drive ≠ 0 ↔ results[drive]? = some 1) ↔
          Followed (sessions (cleared ata) 0 4 answers)) :=
  ⟨fun _ _ _ _ _ finished => probe_confined_iff finished, fun _ _ _ finished => present_iff finished⟩

/-- The IDENTIFY data of the only drive is all zero; its probe leaves the other
records alone. -/
theorem probe_touches_own_record_iff_master :
    ∃ middle after, ((ataProbe (cleared blank) 0)
        (acceptance ++ (emptyWords ++ rejections))).result = some ((middle, 1), rejections) ∧
      Memory.Confined (deviceAddress 0) (deviceAddress 1) (cleared blank).devices middle.devices ∧
      ((initAta blank) (acceptance ++ (emptyWords ++ rejections))).result =
        some ((after, [1, 0, 0, 0]), []) ∧
      ∀ drive < 4, after.present drive ≠ 0 ↔ [1, 0, 0, 0][drive]? = some 1 := by
  have full : emptyWords.length = 256 := List.length_replicate
  obtain ⟨probed, started⟩ := initAta_master full
  refine ⟨_, _, probed, ?_, started, ?_⟩
  · refine ((probe_touches_own_record_iff (cleared blank) _).1 0 (by decide) _ _ _ probed).mpr ?_
    intro words answered index small
    have awaited : ((awaitIdentify (cleared blank) 0)
        (acceptance ++ (emptyWords ++ rejections))).result =
        some (true, emptyWords ++ rejections) := rfl
    rw [awaited] at answered
    obtain rfl := (Prod.mk.inj (Option.some.inj answered)).2
    rw [emptyWords_byte (by omega)]
    interval_cases index <;> rfl
  · refine ((probe_touches_own_record_iff blank _).2 _ _ _ started).mpr ?_
    rw [sessions_master full]
    intro index words small answered spilled
    interval_cases index
    · obtain rfl := Option.some.inj (Option.some.inj answered)
      exact absurd (emptyWords_byte (by decide)) spilled
    all_goals cases answered

/-- The only drive has byte 495 of its IDENTIFY data set: its probe marks the
next record, and `init_ata` leaves a drive present that is not there. -/
theorem absent_slave_marked_present :
    ∃ middle rest after, ((ataProbe (cleared blank) 0)
        (acceptance ++ (sampleWords ++ (rejection ++ (rejection ++ rejection))))).result =
        some ((middle, 1), rest) ∧
      ¬ Memory.Confined (deviceAddress 0) (deviceAddress 1) (cleared blank).devices middle.devices ∧
      ((initAta blank)
        (acceptance ++ (sampleWords ++ (rejection ++ (rejection ++ rejection))))).result =
        some ((after, [1, 0, 0, 0]), []) ∧ after.present 1 ≠ 0 := by
  obtain ⟨probed, started⟩ := initAta_master sampleWords_length
  have marked : (identified (cleared blank) 0 (sampleWords ++ rejections)).present 1 ≠ 0 := by
    rw [identified_next, sampleWords_byte]
    decide
  generalize identified (cleared blank) 0 (sampleWords ++ rejections) = middle at probed started marked
  refine ⟨middle, _, { middle with initialized := true }, probed, fun confined => ?_, started, marked⟩
  have same := confined (presentAddress 1) (.inr (Nat.le_refl _))
  have unmarked : (cleared blank).present 1 = 0 := cleared_present (by decide)
  rw [Driver.present, ← same] at unmarked
  exact marked unmarked

end Helios.Ata
