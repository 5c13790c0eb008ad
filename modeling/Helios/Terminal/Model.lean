import Helios.Data.Memory
import Helios.Data.Shift
import Helios.Strings.Model

namespace Helios.Terminal

open Helios.Data Helios.Strings

/-! The text screen of `screen.c`.

`buffer` is the sequence of 16-bit cells at `VGA_MEMORY`.  The cursor registers
of the display controller are selected through port `0x3D4` and written through
port `0x3D5`. -/

def vgaWidth : Nat := 80
def vgaHeight : Nat := 25

/-- `screen_t`, with the registers of the display controller. -/
structure Screen where
  buffer : Nat → Nat
  color : Nat
  cursorX : Nat
  cursorY : Nat
  selected : Nat
  registers : Nat → Nat

def makeColor (fg bg : UInt8) : Nat := (fg.toNat ||| bg.toNat <<< 4) % 256

/-- `make_vgaentry`; a `char` is extended with its sign. -/
def makeVgaentry (c : UInt8) (color : Nat) : Nat :=
  (if c.toNat < 128 then c.toNat else c.toNat + 0xFF00) ||| color <<< 8 % 65536

def outb (screen : Screen) (port value : Nat) : Screen :=
  if port = 0x3D4 then { screen with selected := value }
  else if port = 0x3D5 then
    { screen with registers := Function.update screen.registers screen.selected value }
  else screen

def screenSetCursor (screen : Screen) (x y : Nat) : Screen :=
  let pos := (y * vgaWidth + x) % 65536
  let screen := outb screen 0x3D4 0x0F
  let screen := outb screen 0x3D5 (pos &&& 0xFF)
  let screen := outb screen 0x3D4 0x0E
  let screen := outb screen 0x3D5 (pos >>> 8 &&& 0xFF)
  { screen with cursorX := x, cursorY := y }

def screenSetcolor (screen : Screen) (fg bg : UInt8) : Screen :=
  { screen with color := makeColor fg bg }

def screenClear (screen : Screen) : Screen :=
  screenSetCursor
    { screen with
      buffer := fillCells (makeVgaentry 32 screen.color) 0 (vgaWidth * vgaHeight) screen.buffer
      cursorX := 0
      cursorY := 0 } 0 0

/-- `screen_init`, on whatever the memory and the registers hold. -/
def screenInit (screen : Screen) : Screen := screenClear (screenSetcolor screen 7 0)

def screenScroll (screen : Screen) : Screen :=
  { screen with
    buffer := fillCells (makeVgaentry 32 screen.color) ((vgaHeight - 1) * vgaWidth) vgaWidth
      (copyRows vgaWidth (vgaHeight - 1) screen.buffer) }

/-- The first part of `screen_putchar`: the character itself. -/
def typeChar (screen : Screen) (c : UInt8) : Screen :=
  if c = 10 then { screen with cursorX := 0, cursorY := (screen.cursorY + 1) % 256 }
  else if c = 13 then { screen with cursorX := 0 }
  else if c = 9 then { screen with cursorX := ((screen.cursorX + 8) &&& 0xFFFFFFF8) % 256 }
  else if c = 8 then
    if screen.cursorX > 0 then { screen with cursorX := screen.cursorX - 1 } else screen
  else
    { screen with
      buffer := Function.update screen.buffer (screen.cursorY * vgaWidth + screen.cursorX)
        (makeVgaentry c screen.color)
      cursorX := (screen.cursorX + 1) % 256 }

/-- The second part: the end of the line. -/
def wrapLine (screen : Screen) : Screen :=
  if screen.cursorX ≥ vgaWidth then
    { screen with cursorX := 0, cursorY := (screen.cursorY + 1) % 256 }
  else screen

/-- The third part: the end of the screen. -/
def scrollPage (screen : Screen) : Screen :=
  if screen.cursorY ≥ vgaHeight then { screenScroll screen with cursorY := vgaHeight - 1 }
  else screen

def screenPutchar (screen : Screen) (c : UInt8) : Screen :=
  let screen := scrollPage (wrapLine (typeChar screen c))
  screenSetCursor screen screen.cursorX screen.cursorY

def screenPutstr (screen : Screen) (str : CString) : Screen := str.val.foldl screenPutchar screen

/-- The character of one hexadecimal digit. -/
def hexDigit (digit : Nat) : UInt8 :=
  if digit < 10 then UInt8.ofNat (48 + digit) else UInt8.ofNat (65 + digit - 10)

/-- The bytes of `"0x"`. -/
def hexPrefix : CString := ⟨[48, 120], by decide⟩

/-- `screen_puthex`; the shifts run from `28` down to `0`. -/
def screenPuthex (screen : Screen) (n : Nat) : Screen :=
  [28, 24, 20, 16, 12, 8, 4, 0].foldl
    (fun screen shift => screenPutchar screen (hexDigit (n >>> shift &&& 0xF)))
    (screenPutstr screen hexPrefix)

/-- The loop that fills the buffer of `screen_putdec`, the last digit first. -/
def decDigits (n : Nat) : List UInt8 :=
  if n = 0 then [] else UInt8.ofNat (48 + n % 10) :: decDigits (n / 10)

def screenPutdec (screen : Screen) (n : Nat) : Screen :=
  if n = 0 then screenPutchar screen 48
  else (decDigits n).reverse.foldl screenPutchar screen

inductive Event where
  | setcolor (fg bg : UInt8)
  | putchar (c : UInt8)
  | putstr (str : CString)
  | putdec (n : Nat)
  | puthex (n : Nat)

def step (screen : Screen) : Event → Screen
  | .setcolor fg bg => screenSetcolor screen fg bg
  | .putchar c => screenPutchar screen c
  | .putstr str => screenPutstr screen str
  | .putdec n => screenPutdec screen n
  | .puthex n => screenPuthex screen n

end Helios.Terminal
