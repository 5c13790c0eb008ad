import Helios.Data.Memory
import Helios.Data.Port
import Helios.Data.Struct

namespace Helios.Ata

open Helios.Data CType

/-! The ATA driver of `ata.c`.

`devices` is the memory at and behind the array of that name.  `inw` and `outw`,
which no header declares, are the 16-bit forms of `inb` and `outb`. -/

/-! The constants of `ata.h`. -/

def ataSectorCount : Nat := 0x1F2
def ataSectorNum : Nat := 0x1F3
def ataCylLow : Nat := 0x1F4
def ataCylHigh : Nat := 0x1F5
def ataDriveHead : Nat := 0x1F6
def ataStatus : Nat := 0x1F7
def ataCommand : Nat := 0x1F7
def ataAltStatus : Nat := 0x3F6

def ataSrBsy : Nat := 0x80
def ataSrDrdy : Nat := 0x40
def ataSrDf : Nat := 0x20
def ataSrDrq : Nat := 0x08
def ataSrErr : Nat := 0x01

def ataCmdReadPio : Nat := 0x20
def ataCmdWritePio : Nat := 0x30
def ataCmdCacheFlush : Nat := 0xE7
def ataCmdIdentify : Nat := 0xEC

def ataAta : UInt8 := 0

/-- The fields of `ata_identify_t`. -/
def identifyFields : List CType := packed
  [uint16, uint16, uint16, uint16, array uint16 2, uint16, array uint16 3, array uint8 20,
    array uint16 2, array uint8 8, array uint8 40, uint16, uint16, array uint16 3, uint32,
    array uint16 194]

def ataIdentifyT : CType := struct identifyFields

/-- The fields of `ata_device_t`. -/
def deviceFields : List CType :=
  [uint8, uint8, uint8, uint8, uint16, uint16, uint32, uint32, array uint8 41, ataIdentifyT]

def ataDeviceT : CType := struct deviceFields

/-- `&devices[drive]`, counted from the start of the array. -/
def deviceAddress (drive : Nat) : Nat := ataDeviceT.size * drive

def presentAddress (drive : Nat) : Nat := deviceAddress drive + offset deviceFields 0
def typeAddress (drive : Nat) : Nat := deviceAddress drive + offset deviceFields 1
def channelAddress (drive : Nat) : Nat := deviceAddress drive + offset deviceFields 2
def driveAddress (drive : Nat) : Nat := deviceAddress drive + offset deviceFields 3
def sizeAddress (drive : Nat) : Nat := deviceAddress drive + offset deviceFields 7
def modelAddress (drive : Nat) : Nat := deviceAddress drive + offset deviceFields 8
def identifyAddress (drive : Nat) : Nat := deviceAddress drive + offset deviceFields 9

structure Channel where
  base : Nat
  ctrl : Nat
  bmide : Nat
  nIEN : Nat
deriving Repr, DecidableEq

structure Driver where
  channels : Nat → Channel
  devices : Memory
  initialized : Bool

namespace Driver

def present (ata : Driver) (drive : Nat) : Nat := (ata.devices (presentAddress drive)).toNat
def channel (ata : Driver) (drive : Nat) : Nat := (ata.devices (channelAddress drive)).toNat
def drive (ata : Driver) (drive : Nat) : Nat := (ata.devices (driveAddress drive)).toNat
def size (ata : Driver) (drive : Nat) : Nat := ata.devices.load32 (sizeAddress drive)

/-- `channels[channel].base`. -/
def base (ata : Driver) (channel : Nat) : Nat := (ata.channels channel).base

end Driver

/-- A port number is a 16-bit argument. -/
def portAt (base register : Nat) : Nat := (base + register) % 65536

def ataWaitBusy (port : Nat) : Port Unit :=
  .pollWhile (portAt port ataStatus) fun status => status &&& ataSrBsy ≠ 0

/-- `ata_wait_ready`, which is always called with `advanced` set. -/
def ataWaitReady (port : Nat) : Port Nat := do
  .times 4 (do let _ ← .inb (portAt port ataAltStatus))
  ataWaitBusy port
  let status ← .inb (portAt port ataStatus)
  if status &&& ataSrErr ≠ 0 then return 0
  else if status &&& ataSrDf ≠ 0 then return 0
  else if status &&& ataSrDrdy = 0 then return 0
  else return 1

def ataSelectDrive (ata : Driver) (drive : Nat) : Port Unit := do
  .outb (portAt (ata.base (drive / 2)) ataDriveHead) (0xA0 ||| (drive % 2) <<< 4)
  .times 4 (do let _ ← .inb (portAt (ata.base (drive / 2)) ataAltStatus))

/-- The loop `buffer[i] = inw(base)`. -/
def readWords (base : Nat) : Nat → Memory → Nat → Port Memory
  | 0, memory, _ => return memory
  | count + 1, memory, address => do
      let word ← .inw base
      readWords base count (memory.store16 address word) (address + 2)

/-- The loop that exchanges the bytes of each word of a string. -/
def swapPairs : Nat → Memory → Nat → Memory
  | 0, memory, _ => memory
  | count + 1, memory, address =>
      swapPairs count
        ((memory.store8 address (memory (address + 1))).store8 (address + 1) (memory address))
        (address + 2)

def strncpy : Nat → Memory → Nat → Nat → Memory
  | 0, memory, _, _ => memory
  | count + 1, memory, dest, src =>
      if memory src = 0 then memory.fill dest (count + 1) 0
      else strncpy count (memory.store8 dest (memory src)) (dest + 1) (src + 1)

/-- `ata_probe` up to the transfer of the answer to IDENTIFY: whether it gets
there. -/
def awaitIdentify (ata : Driver) (drive : Nat) : Port Bool := do
  let base := ata.base (drive / 2)
  ataSelectDrive ata drive
  .outb (portAt base ataCommand) ataCmdIdentify
  let status ← .inb (portAt base ataStatus)
  if status = 0 then return false
  else do
    ataWaitBusy base
    let _ ← .inb (portAt base ataStatus)
    let lbaMid ← .inb (portAt base ataSectorNum)
    let lbaHigh ← .inb (portAt base ataCylLow)
    if lbaMid ≠ 0 ∨ lbaHigh ≠ 0 then return false
    else do
      let ready ← ataWaitReady base
      return ready ≠ 0

/-- The strings of the answer, in the places where the source looks for them. -/
def fixStrings (devices : Memory) (identify : Nat) : Memory :=
  let devices := (swapPairs 10 devices (identify + 54)).store8 (identify + 74) 0
  let devices := (swapPairs 4 devices (identify + 46)).store8 (identify + 54) 0
  (swapPairs 20 devices (identify + 20)).store8 (identify + 60) 0

def sectorTotal (devices : Memory) (identify : Nat) : Nat :=
  let total := devices.load32 (identify + offset identifyFields 14)
  if total ≠ 0 then total
  else
    u32 (devices.load16 (identify + offset identifyFields 1) *
      devices.load16 (identify + offset identifyFields 3) *
      devices.load16 (identify + offset identifyFields 5))

/-- `ata_probe` behind the transfer. -/
def fillDevice (devices : Memory) (drive : Nat) : Memory :=
  let identify := identifyAddress drive
  let devices := fixStrings devices identify
  let devices := devices.store8 (presentAddress drive) 1
  let devices := devices.store8 (typeAddress drive) ataAta
  let devices := devices.store8 (channelAddress drive) (UInt8.ofNat (drive / 2))
  let devices := devices.store8 (driveAddress drive) (UInt8.ofNat (drive % 2))
  let devices := strncpy 40 devices (modelAddress drive) (identify + offset identifyFields 10)
  let devices := devices.store8 (modelAddress drive + 40) 0
  devices.store32 (sizeAddress drive) (sectorTotal devices identify)

def ataProbe (ata : Driver) (drive : Nat) : Port (Driver × Nat) := do
  let answered ← awaitIdentify ata drive
  if answered then do
    let devices ← readWords (portAt (ata.base (drive / 2)) 0) 256 ata.devices (identifyAddress drive)
    return ({ ata with devices := fillDevice devices drive }, 1)
  else return (ata, 0)

def primary : Channel := ⟨0x1F0, 0x3F6, 0, 0⟩
def secondary : Channel := ⟨0x170, 0x376, 0, 0⟩

def setChannels (channels : Nat → Channel) : Nat → Channel :=
  Function.update (Function.update channels 0 primary) 1 secondary

/-- The loop of `init_ata` over the records. -/
def clearDevices (devices : Memory) : Nat → Memory
  | 0 => devices
  | count + 1 =>
      (((clearDevices devices count).store8 (presentAddress count) 0).store32
        (sizeAddress count) 0).store8 (modelAddress count) 0

/-- The loop of `init_ata` over the drives, with what each probe returned. -/
def probeFrom (ata : Driver) (drive : Nat) : Nat → Port (Driver × List Nat)
  | 0 => return (ata, [])
  | count + 1 => do
      let (ata, found) ← ataProbe ata drive
      let (ata, results) ← probeFrom ata (drive + 1) count
      return (ata, found :: results)

/-- `init_ata`; the number it prints is the sum of the results. -/
def initAta (ata : Driver) : Port (Driver × List Nat) := do
  let (ata, results) ←
    probeFrom { ata with
      channels := setChannels ata.channels, devices := clearDevices ata.devices 4 } 0 4
  return ({ ata with initialized := true }, results)

/-- The five parameter writes of `ata_read_sectors` and `ata_write_sectors`. -/
def setAddress (base lba num slave : Nat) : Port Unit := do
  .outb (portAt base ataSectorCount) num
  .outb (portAt base ataSectorNum) (lba % 256)
  .outb (portAt base ataCylLow) ((lba >>> 8) % 256)
  .outb (portAt base ataCylHigh) ((lba >>> 16) % 256)
  .outb (portAt base ataDriveHead) ((0xE0 ||| slave <<< 4 ||| ((lba >>> 24) &&& 0x0F)) % 256)

/-- The sector loop of `ata_read_sectors`, from sector `done` on. -/
def readSectors (base : Nat) (done : Nat) : Nat → Memory → Nat → Port (Memory × Nat)
  | 0, memory, _ => return (memory, done)
  | count + 1, memory, buffer => do
      let ready ← ataWaitReady base
      if ready = 0 then return (memory, done)
      else do
        let memory ← readWords (portAt base 0) 256 memory buffer
        readSectors base (done + 1) count memory (buffer + 512)

/-- The loop `outw(base, buffer[i])`. -/
def writeWords (base : Nat) (memory : Memory) : Nat → Nat → Port Unit
  | 0, _ => return ()
  | count + 1, address => do
      .outw base (memory.load16 address)
      writeWords base memory count (address + 2)

/-- The sector loop of `ata_write_sectors`, from sector `done` on. -/
def writeSectors (base : Nat) (memory : Memory) (done : Nat) : Nat → Nat → Port Nat
  | 0, _ => return done
  | count + 1, buffer => do
      let ready ← ataWaitReady base
      if ready = 0 then return done
      else do
        writeWords (portAt base 0) memory 256 buffer
        .outb (portAt base ataCommand) ataCmdCacheFlush
        ataWaitBusy base
        writeSectors base memory (done + 1) count (buffer + 512)

/-- The two transfers up to their command; `transfer` is given the base port. -/
def command {α : Type} (ata : Driver) (drive lba num code : Nat) (failed : α)
    (transfer : Nat → Port α) : Port α :=
  if ata.initialized = false ∨ ata.present drive = 0 then return failed
  else if num = 0 then return failed
  else do
    let base := ata.base (ata.channel drive)
    ataSelectDrive ata drive
    let ready ← ataWaitReady base
    if ready = 0 then return failed
    else do
      setAddress base lba num (ata.drive drive)
      .outb (portAt base ataCommand) code
      transfer base

def ataReadSectors (ata : Driver) (memory : Memory) (drive lba num buf : Nat) : Port (Memory × Nat) :=
  command ata drive lba num ataCmdReadPio (memory, 0) fun base =>
    readSectors base 0 num memory buf

def ataWriteSectors (ata : Driver) (memory : Memory) (drive lba num buf : Nat) : Port Nat :=
  command ata drive lba num ataCmdWritePio 0 fun base => writeSectors base memory 0 num buf

end Helios.Ata
