import Helios.Data.Port

namespace Helios.Interrupt

open Helios.Data

/-! The functions of `irq.c` and `irq_handler` of `idt.c`. -/

def pic1Cmd : Nat := 0x20
def pic1Data : Nat := 0x21
def pic2Cmd : Nat := 0xA0
def pic2Data : Nat := 0xA1
def picEoi : Nat := 0x20
def picInit : Nat := 0x11
def pic8086 : Nat := 0x01
def pic1Offset : Nat := 0x20
def pic2Offset : Nat := 0x28

def ioWait : Port Unit := Port.outb 0x80 0

def initPic : Port Unit := do
  let a1 ← Port.inb pic1Data
  let a2 ← Port.inb pic2Data
  Port.outb pic1Cmd picInit
  ioWait
  Port.outb pic1Data pic1Offset
  ioWait
  Port.outb pic1Data 0x04
  ioWait
  Port.outb pic1Data pic8086
  ioWait
  Port.outb pic2Cmd picInit
  ioWait
  Port.outb pic2Data pic2Offset
  ioWait
  Port.outb pic2Data 0x02
  ioWait
  Port.outb pic2Data pic8086
  ioWait
  Port.outb pic1Data a1
  Port.outb pic2Data a2
  Port.outb pic1Data 0x00
  Port.outb pic2Data 0x00

def sendEoi (irq : Nat) : Port Unit := do
  if irq ≥ 8 then Port.outb pic2Cmd picEoi
  Port.outb pic1Cmd picEoi

/-- The data port of the controller of a line, and the line there. -/
def dataPort (irq : Nat) : Nat × Nat :=
  if irq < 8 then (pic1Data, irq) else (pic2Data, irq - 8)

def enableIrq (irq : Nat) : Port Unit := do
  let (port, irq) := dataPort irq
  let value ← Port.inb port
  let value := (BitVec.ofNat 32 value &&& ~~~(1#32 <<< irq)).toNat % 256
  Port.outb port value

def disableIrq (irq : Nat) : Port Unit := do
  let (port, irq) := dataPort irq
  let value ← Port.inb port
  let value := (BitVec.ofNat 32 value ||| 1#32 <<< irq).toNat % 256
  Port.outb port value

/-- `irq_handler`, on the interrupt number of its argument; a registered handler
changes a state of its own. -/
def irqHandler {σ : Type} (handlers : Nat → Option (σ → σ)) (intNo : Nat) (state : σ) :
    Port σ := do
  if intNo ≥ 40 then Port.outb pic2Cmd picEoi
  Port.outb pic1Cmd picEoi
  match handlers intNo with
  | some handler => pure (handler state)
  | none => pure state

/-- `register_interrupt_handler`. -/
def registerInterruptHandler {σ : Type} (handlers : Nat → Option (σ → σ)) (n : Nat)
    (handler : σ → σ) : Nat → Option (σ → σ) :=
  Function.update handlers n (some handler)

end Helios.Interrupt
