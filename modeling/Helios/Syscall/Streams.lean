import Helios.Data.Port
import Helios.Syscall.Model
import Helios.Terminal.Model

namespace Helios.Syscall

open Helios.Data Helios.Terminal

/-! `sys_read` and `sys_write`: the keyboard behind descriptor `0` and the screen
behind `1` and `2`.

The scancodes come from port `0x60`.  The range of keys that is looked up in
`"qwertyuiop"` is longer than the string; `behind` is the byte behind its
terminator.  The delay in the loop is left out. -/

structure Console where
  memory : Memory
  screen : Screen

/-- A console with the index `i` of the reading loop. -/
structure Line extends Console where
  i : Nat

/-- A character of a string literal, of its terminator, or behind it. -/
def literal (characters : List UInt8) (behind : UInt8) (index : Nat) : UInt8 :=
  (characters ++ [0]).getD index behind

/-- The bytes of `"qwertyuiop"`, `"asdfghjkl"`, `"zxcvbnm"` and `"1234567890-="`. -/
def topRow : List UInt8 := [113, 119, 101, 114, 116, 121, 117, 105, 111, 112]
def homeRow : List UInt8 := [97, 115, 100, 102, 103, 104, 106, 107, 108]
def bottomRow : List UInt8 := [122, 120, 99, 118, 98, 110, 109]
def numberRow : List UInt8 := [49, 50, 51, 52, 53, 54, 55, 56, 57, 48, 45, 61]

/-- The `default` of the `switch` on the key. -/
def keyChar (behind : UInt8) (key : Nat) : UInt8 :=
  if 0x10 ≤ key ∧ key ≤ 0x1C then literal topRow behind (key - 0x10)
  else if 0x1E ≤ key ∧ key ≤ 0x26 then literal homeRow behind (key - 0x1E)
  else if 0x2C ≤ key ∧ key ≤ 0x32 then literal bottomRow behind (key - 0x2C)
  else if 0x02 ≤ key ∧ key ≤ 0x0B then literal numberRow behind (key - 0x02)
  else 0

/-- The backspace key. -/
def eraseLast (buf : Nat) (line : Line) : Line :=
  if line.i > 0 then
    { line with memory := line.memory.store8 (buf + (line.i - 1)) 0, i := line.i - 1 }
  else line

/-- The `switch` on the key, with the value of `c` after it. -/
def switchKey (behind : UInt8) (buf : Nat) (line : Line) (key : Nat) : Line × UInt8 :=
  if key = 0x1C then (line, 10)
  else if key = 0x0E then (eraseLast buf line, 0)
  else if key = 0x39 then (line, 32)
  else (line, keyChar behind key)

/-- One pass of the reading loop, and whether it leaves the loop. -/
def readKey (behind : UInt8) (buf count : Nat) (line : Line) (key : Nat) : Line × Bool :=
  if key < 0x80 then
    let (line, c) := switchKey behind buf line key
    if c ≠ 0 ∧ line.i < count then
      (⟨⟨line.memory.store8 (buf + line.i) c, screenPutchar line.screen c⟩, line.i + 1⟩, c = 10)
    else (line, false)
  else (line, false)

def sysRead (behind : UInt8) (console : Console) (fd : Int) (buf count : Nat) :
    Port (Console × Int) :=
  if fd = 0 then do
    let line ← Port.readWhile 0x60 (fun line => line.i < count) (readKey behind buf count)
      ⟨console, 0⟩
    pure (line.toConsole, signed line.i)
  else pure (console, -1)

/-- The loop of `sys_write`. -/
def putBytes (memory : Memory) : Nat → Nat → Screen → Screen
  | _, 0, screen => screen
  | address, count + 1, screen =>
      putBytes memory (address + 1) count (screenPutchar screen (memory address))

def sysWrite (console : Console) (fd : Int) (buf count : Nat) : Console × Int :=
  if fd = 1 ∨ fd = 2 then
    ({ console with screen := putBytes console.memory buf count console.screen }, signed count)
  else (console, -1)

section

variable {behind : UInt8} {console : Console} {fd : Int} {buf count : Nat}

/-- The bytes are sent to the screen, and their number is returned. -/
def Sent (console : Console) (buf count : Nat) (result : Console × Int) : Prop :=
  result = ({ console with
    screen := (console.memory.bytes buf count).foldl screenPutchar console.screen }, (count : Int))

theorem putBytes_eq {memory : Memory} {address : Nat} {screen : Screen} :
    putBytes memory address count screen =
      (memory.bytes address count).foldl screenPutchar screen := by
  induction count generalizing address screen with
  | zero => rfl
  | succ count ih => exact ih

theorem signed_eq_iff {word : Nat} : signed word = word ↔ word < 0x80000000 := by
  rw [signed]
  split
  · omega
  · omega

theorem sysWrite_sent_iff : Sent console buf count (sysWrite console fd buf count) ↔
    (fd = 1 ∨ fd = 2) ∧ count < 0x80000000 := by
  rw [Sent, sysWrite]
  by_cases output : fd = 1 ∨ fd = 2
  · rw [if_pos output, putBytes_eq, Prod.mk.injEq, signed_eq_iff]
    simp [output]
  · rw [if_neg output, Prod.mk.injEq]
    have negative : (-1 : Int) ≠ count := by omega
    simp [output, negative]

/-- Only descriptor `0` reads the keyboard. -/
theorem sysRead_result_iff {answers : List Nat} :
    (sysRead behind console fd buf count answers).result =
      (sysRead behind console 0 buf count answers).result ↔ fd = 0 := by
  refine ⟨fun same => ?_, fun input => by rw [input]⟩
  by_contra other
  rw [sysRead, sysRead, if_neg other, if_pos rfl] at same
  obtain ⟨line, rest, finished, returned⟩ := Port.bind_result same.symm
  have ending : ((line.toConsole, signed line.i), rest) = ((console, -1), answers) :=
    Option.some.inj returned
  simp only [Prod.mk.injEq] at ending
  obtain ⟨⟨_, code⟩, unread⟩ := ending
  have left := Port.readWhile_left finished
  by_cases wanted : 0 < count
  · -- A key has been taken from the stream.
    rw [if_pos (by simp [wanted]), unread] at left
    omega
  · rw [Port.readWhile_idle (by simp [wanted])] at finished
    cases finished
    cases code

end

end Helios.Syscall
