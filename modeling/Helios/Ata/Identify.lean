import Helios.Ata.Records

namespace Helios.Ata

open Helios.Data CType

/-! What a probe makes of the answer to IDENTIFY.

`ata_identify_t` is two bytes short of the standard's layout from the model on
and eighteen at the sector count, and the three loops that exchange bytes go by
other offsets than the structure. -/

/-- The 512 bytes of the answer. -/
def block (words : List Nat) : Memory := identifyByte words

/-- The model field with the bytes of each word exchanged. -/
def modelField (words : List Nat) : Memory := fun index =>
  block words (54 + if index % 2 = 0 then index + 1 else index - 1)

def blockModel (words : List Nat) : List UInt8 := (modelField words).text 0 40

def blockSize (words : List Nat) : Nat :=
  if (block words).load32 120 ≠ 0 then (block words).load32 120
  else (block words).load16 2 * (block words).load16 6 * (block words).load16 12

/-- The record has the model and the size of the answer. -/
structure Decoded (words : List Nat) (drive : Nat) (after : Driver) : Prop where
  model : after.devices.text (modelAddress drive) 41 = blockModel words
  size : after.size drive = blockSize words

/-- The probe's string, the bytes 52, 53 and 54 up to a terminator, is the model. -/
def ModelInPlace (words : List Nat) : Prop :=
  block words 52 = block words 55 ∧ (block words 52 = 0 ∨
    block words 53 = block words 54 ∧ (block words 53 = 0 ∨
      block words 54 = block words 57 ∧ block words 56 = 0))

/-- The bytes 102 to 105 are the sector count, or they are zero and the product
of the geometry modulo `2 ^ 32` is. -/
def SizeInPlace (words : List Nat) : Prop :=
  (if (block words).load32 102 ≠ 0 then (block words).load32 102
    else u32 ((block words).load16 2 * (block words).load16 6 * (block words).load16 12)) =
    blockSize words

section

variable {ata after : Driver} {memory : Memory} {drive address count value index src : Nat}
variable {answers words rest : List Nat}

theorem swapPairs_other {position : Nat}
    (outside : position < address ∨ address + 2 * count ≤ position) :
    swapPairs count memory address position = memory position :=
  swapPairs_confined .refl (le_refl _) (le_refl _) position outside

theorem swapPairs_low (small : index < count) :
    swapPairs count memory address (address + 2 * index) = memory (address + 2 * index + 1) := by
  induction count generalizing memory address index with
  | zero => omega
  | succ count ih =>
      rw [swapPairs]
      cases index with
      | zero =>
          simp only [Nat.mul_zero, Nat.add_zero]
          rw [swapPairs_other (by omega), Memory.store8_other (by omega), Memory.store8_same]
      | succ index =>
          have shifted : address + 2 * (index + 1) = address + 2 + 2 * index := by omega
          rw [shifted, ih (by omega), Memory.store8_other (by omega), Memory.store8_other (by omega)]

theorem swapPairs_high (small : index < count) :
    swapPairs count memory address (address + 2 * index + 1) = memory (address + 2 * index) := by
  induction count generalizing memory address index with
  | zero => omega
  | succ count ih =>
      rw [swapPairs]
      cases index with
      | zero =>
          simp only [Nat.mul_zero, Nat.add_zero]
          rw [swapPairs_other (by omega), Memory.store8_same]
      | succ index =>
          have shifted : address + 2 * (index + 1) = address + 2 + 2 * index := by omega
          rw [shifted, ih (by omega), Memory.store8_other (by omega), Memory.store8_other (by omega)]

/-- The loops leave three bytes and a terminator where the model is looked for. -/
theorem fixStrings_model :
    fixStrings memory address (address + 52) = memory (address + 52) ∧
      fixStrings memory address (address + 53) = memory (address + 53) ∧
      fixStrings memory address (address + 54) = memory (address + 54) ∧
      fixStrings memory address (address + 55) = 0 := by
  have serial : ∀ position < address + 54,
      ((swapPairs 10 memory (address + 54)).store8 (address + 74) 0) position = memory position :=
    fun position below => by rw [Memory.store8_other (by omega), swapPairs_other (by omega)]
  have serialFirst : ((swapPairs 10 memory (address + 54)).store8 (address + 74) 0) (address + 55) =
      memory (address + 54) := by
    rw [Memory.store8_other (by omega)]
    exact @swapPairs_high memory (address + 54) 10 0 (by decide)
  simp only [fixStrings]
  generalize (swapPairs 10 memory (address + 54)).store8 (address + 74) 0 = first at serial serialFirst
  -- The firmware's loop and the model's exchange the bytes 52 and 53 twice.
  have firmwareLow : ((swapPairs 4 first (address + 46)).store8 (address + 54) 0) (address + 52) =
      first (address + 53) := by
    rw [Memory.store8_other (by omega)]
    exact @swapPairs_low first (address + 46) 4 3 (by decide)
  have firmwareHigh : ((swapPairs 4 first (address + 46)).store8 (address + 54) 0) (address + 53) =
      first (address + 52) := by
    rw [Memory.store8_other (by omega)]
    exact @swapPairs_high first (address + 46) 4 3 (by decide)
  have firmwareEnd : ((swapPairs 4 first (address + 46)).store8 (address + 54) 0) (address + 54) = 0 :=
    Memory.store8_same
  have firmwareNext : ((swapPairs 4 first (address + 46)).store8 (address + 54) 0) (address + 55) =
      first (address + 55) := by
    rw [Memory.store8_other (by omega), swapPairs_other (by omega)]
  generalize (swapPairs 4 first (address + 46)).store8 (address + 54) 0 = second at *
  rw [Memory.store8_other (by omega), Memory.store8_other (by omega), Memory.store8_other (by omega),
    Memory.store8_other (by omega)]
  refine ⟨?_, ?_, ?_, ?_⟩
  · exact (@swapPairs_low second (address + 20) 20 16 (by decide)).trans
      (firmwareHigh.trans (serial _ (by omega)))
  · exact (@swapPairs_high second (address + 20) 20 16 (by decide)).trans
      (firmwareLow.trans (serial _ (by omega)))
  · exact (@swapPairs_low second (address + 20) 20 17 (by decide)).trans
      (firmwareNext.trans serialFirst)
  · exact (@swapPairs_high second (address + 20) 20 17 (by decide)).trans firmwareEnd

/-- A copied string is the source's, as long as the copy does not overwrite it. -/
theorem strncpy_text (apart : address + count ≤ src ∨ src + count ≤ address) :
    (strncpy count memory address src).text address count = memory.text src count := by
  induction count generalizing memory address src with
  | zero => rfl
  | succ count ih =>
      rw [strncpy]
      by_cases ended : memory src = 0
      · rw [if_pos ended, Memory.text, Memory.text, if_pos ended,
          Memory.fill_inside (le_refl _) (by omega), if_pos rfl]
      · have first : strncpy count (memory.store8 address (memory src)) (address + 1) (src + 1) address =
            memory src := by
          rw [strncpy_confined .refl (le_refl _) (le_refl _) address (.inl (by omega)),
            Memory.store8_same]
        have source : (memory.store8 address (memory src)).text (src + 1) count =
            memory.text (src + 1) count :=
          Memory.text_congr fun index small => Memory.store8_other (by omega)
        rw [if_neg ended, Memory.text, first, if_neg ended, ih (by omega), source, Memory.text,
          if_neg ended]

theorem received_block {position : Nat} (small : position < 512) :
    received memory address 256 words (address + position) = block words position := by
  rw [received, if_pos (by omega), Nat.add_sub_cancel_left, block]

/-- Outside the strings the probe leaves the answer as it is. -/
theorem fixStrings_block {position : Nat} (small : position < 512)
    (outside : position < 20 ∨ 75 ≤ position) :
    fixStrings (received memory address 256 words) address (address + position) =
      block words position := by
  rw [fixStrings_confined .refl (le_refl _) (le_refl _) (address + position) (by omega),
    received_block small]

theorem sectorTotal_lt : sectorTotal memory address < 4294967296 := by
  rw [sectorTotal]
  split
  · exact Memory.load32_lt memory _
  · exact u32_lt _

theorem sectorTotal_congr {other : Memory} (same : ∀ position, address ≤ position →
    memory position = other position) : sectorTotal memory address = sectorTotal other address := by
  simp only [sectorTotal]
  rw [Memory.load32_congr fun position lower _ => same position (by omega),
    Memory.load16_move fun index _ => same _ (by omega),
    Memory.load16_move fun index _ => same _ (by omega),
    Memory.load16_move fun index _ => same _ (by omega)]

/-- The model and the size that a probe stores in its record. -/
theorem fillDevice_fields :
    (fillDevice memory drive).text (modelAddress drive) 41 =
        (fixStrings memory (identifyAddress drive)).text (identifyAddress drive + 52) 40 ∧
      (fillDevice memory drive).load32 (sizeAddress drive) =
        sectorTotal (fixStrings memory (identifyAddress drive)) (identifyAddress drive) := by
  have place : offset identifyFields 10 = 52 := rfl
  rw [fillDevice]
  simp only [presentAddress_eq, typeAddress_eq, channelAddress_eq, driveAddress_eq, sizeAddress_eq,
    modelAddress_eq, identifyAddress_eq, place]
  generalize fixStrings memory (552 * drive + 57) = strings
  have head : ∀ type channel slave : UInt8, Memory.Confined (552 * drive) (552 * drive + 4) strings
      ((((strings.store8 (552 * drive) 1).store8 (552 * drive + 1) type).store8 (552 * drive + 2)
        channel).store8 (552 * drive + 3) slave) := fun _ _ _ =>
    (((Memory.Confined.refl.store8 (by omega) (by omega)).store8 (by omega) (by omega)).store8
      (by omega) (by omega)).store8 (by omega) (by omega)
  replace head := head ataAta (UInt8.ofNat (drive / 2)) (UInt8.ofNat (drive % 2))
  generalize (((strings.store8 (552 * drive) 1).store8 (552 * drive + 1) ataAta).store8
    (552 * drive + 2) (UInt8.ofNat (drive / 2))).store8 (552 * drive + 3)
    (UInt8.ofNat (drive % 2)) = fields at head
  have copied : (strncpy 40 fields (552 * drive + 16) (552 * drive + 57 + 52)).text
      (552 * drive + 16) 40 = strings.text (552 * drive + 57 + 52) 40 :=
    (strncpy_text (.inl (by omega))).trans
      (Memory.text_congr fun index small => head _ (by omega))
  have kept : Memory.Confined (552 * drive) (552 * drive + 57) strings
      ((strncpy 40 fields (552 * drive + 16) (552 * drive + 57 + 52)).store8 (552 * drive + 16 + 40)
        0) :=
    (strncpy_confined (head.mono (le_refl _) (by omega)) (by omega) (by omega)).store8 (by omega)
      (by omega)
  generalize strncpy 40 fields (552 * drive + 16) (552 * drive + 57 + 52) = model at copied kept
  constructor
  · rw [Memory.text_terminated (by rw [Memory.store32_other (by omega), Memory.store8_same]), ← copied]
    exact Memory.text_congr fun index small => by
      rw [Memory.store32_other (by omega), Memory.store8_other (by omega)]
  · rw [Memory.load32_store32_same sectorTotal_lt]
    exact sectorTotal_congr fun position lower => kept position (by omega)

theorem decoded_model_iff :
    (identified ata drive words).devices.text (modelAddress drive) 41 = blockModel words ↔
      ModelInPlace words := by
  have stored : (identified ata drive words).devices.text (modelAddress drive) 41 =
      (fixStrings (received ata.devices (identifyAddress drive) 256 words)
        (identifyAddress drive)).text (identifyAddress drive + 52) 40 := fillDevice_fields.1
  obtain ⟨first, second, third, fourth⟩ :=
    @fixStrings_model (received ata.devices (identifyAddress drive) 256 words) (identifyAddress drive)
  rw [received_block (by decide)] at first second third
  have field : modelField words 0 = block words 55 ∧ modelField words 1 = block words 54 ∧
      modelField words 2 = block words 57 ∧ modelField words 3 = block words 56 :=
    ⟨rfl, rfl, rfl, rfl⟩
  obtain ⟨field0, field1, field2, field3⟩ := field
  rw [stored, blockModel, Memory.text_eq_iff, Memory.text_eq_iff, Memory.text_eq_iff,
    Memory.text_eq_iff]
  simp only [Nat.add_assoc, Nat.reduceAdd, first, second, third, fourth, field0, field1, field2,
    field3, true_or, and_true, ModelInPlace]
  refine and_congr_right fun _ => or_congr_right (and_congr_right fun same => ?_)
  rw [same]
  by_cases ended : block words 54 = 0
  · simp [ended]
  · simp [ended, eq_comm]

theorem decoded_size_iff :
    (identified ata drive words).size drive = blockSize words ↔ SizeInPlace words := by
  have stored : (identified ata drive words).size drive =
      sectorTotal (fixStrings (received ata.devices (identifyAddress drive) 256 words)
        (identifyAddress drive)) (identifyAddress drive) := fillDevice_fields.2
  have total : offset identifyFields 14 = 102 := rfl
  have cylinders : offset identifyFields 1 = 2 := rfl
  have heads : offset identifyFields 3 = 6 := rfl
  have sectors : offset identifyFields 5 = 12 := rfl
  have long : (fixStrings (received ata.devices (identifyAddress drive) 256 words)
      (identifyAddress drive)).load32 (identifyAddress drive + 102) = (block words).load32 102 :=
    Memory.load32_move fun index small => by
      rw [Nat.add_assoc]
      exact fixStrings_block (by omega) (by omega)
  have short : ∀ position ≤ 12,
      (fixStrings (received ata.devices (identifyAddress drive) 256 words)
        (identifyAddress drive)).load16 (identifyAddress drive + position) =
      (block words).load16 position := fun position low =>
    Memory.load16_move fun index small => by
      rw [Nat.add_assoc]
      exact fixStrings_block (by omega) (by omega)
  rw [stored, sectorTotal, total, cylinders, heads, sectors, long, short 2 (by decide),
    short 6 (by decide), short 12 (by decide), SizeInPlace]

end

/-- A probe that gets the answer to IDENTIFY decodes it exactly when the bytes
that it takes for the model and the size are those of the answer. -/
theorem identify_decoded_iff (ata after : Driver) (drive value : Nat) (answers words rest : List Nat)
    (answered : ((awaitIdentify ata drive) answers).result = some (true, words))
    (finished : ((ataProbe ata drive) answers).result = some ((after, value), rest)) :
    Decoded words drive after ↔ ModelInPlace words ∧ SizeInPlace words := by
  obtain ⟨refused, _⟩ | ⟨others, accepted, _, same, _⟩ := probe_cases finished
  · rw [answered] at refused
    cases refused
  · rw [answered] at accepted
    cases accepted
    subst same
    exact ⟨fun decoded => ⟨decoded_model_iff.mp decoded.model, decoded_size_iff.mp decoded.size⟩,
      fun places => ⟨decoded_model_iff.mpr places.1, decoded_size_iff.mpr places.2⟩⟩

/-- The answer of a disk whose two words 51 and 60 both say 2048 sectors. -/
def namelessWords : List Nat :=
  List.replicate 51 0 ++ 2048 :: (List.replicate 8 0 ++ 2048 :: List.replicate 195 0)

theorem identify_decoded_iff_nameless :
    Decoded namelessWords 0 (identified blank 0 namelessWords) := by
  have answered : ((awaitIdentify blank 0) (acceptance ++ namelessWords)).result =
      some (true, namelessWords) := rfl
  have long : 256 ≤ namelessWords.length := by
    simp only [namelessWords, List.length_append, List.length_cons, List.length_replicate]
    decide
  refine (identify_decoded_iff blank _ 0 1 _ namelessWords _ answered
    (probe_accepts answered long)).mpr ⟨?_, ?_⟩
  · rw [ModelInPlace]
    decide
  · rw [SizeInPlace]
    decide

/-- The answer of a disk of 2048 sectors whose model begins with `QE`. -/
def diskWords : List Nat :=
  List.replicate 27 0 ++ 0x5145 :: (List.replicate 32 0 ++ 2048 :: List.replicate 195 0)

theorem disk_misread : ∃ after rest,
    ((ataProbe blank 0) (acceptance ++ diskWords)).result = some ((after, 1), rest) ∧
      blockModel diskWords = [0x51, 0x45] ∧ blockSize diskWords = 2048 ∧
      after.devices.text (modelAddress 0) 41 ≠ [0x51, 0x45] ∧ after.size 0 ≠ 2048 ∧
      ¬ Decoded diskWords 0 after := by
  have answered : ((awaitIdentify blank 0) (acceptance ++ diskWords)).result =
      some (true, diskWords) := rfl
  have long : 256 ≤ diskWords.length := by
    simp only [diskWords, List.length_append, List.length_cons, List.length_replicate]
    decide
  have model : blockModel diskWords = [0x51, 0x45] := by decide
  have size : blockSize diskWords = 2048 := by decide
  have unnamed : ¬ ModelInPlace diskWords := by
    rw [ModelInPlace]
    decide
  have unsized : ¬ SizeInPlace diskWords := by
    rw [SizeInPlace]
    decide
  refine ⟨_, _, probe_accepts answered long, model, size, fun same => ?_, fun same => ?_,
    fun decoded => unsized (decoded_size_iff.mp decoded.size)⟩
  · exact unnamed (decoded_model_iff.mp (same.trans model.symm))
  · exact unsized (decoded_size_iff.mp (same.trans size.symm))

end Helios.Ata
