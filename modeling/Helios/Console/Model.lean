import Helios.Syscall.Keyboard

namespace Helios.Console

open Helios.Data Helios.Strings Helios.Syscall Helios.Terminal

/-! `console_process`: the prompt, the input loop around `sys_read`, and the
commands.

It never returns, so its local variables stay where they are. -/

/-- The addresses of `cmd`, of 128 bytes, and of `c`. -/
structure Frame where
  cmd : Nat
  c : Nat
  apart : c < cmd ∨ cmd + 128 ≤ c

/-- The state of the input loop. -/
structure Input extends Syscall.Console where
  pos : Nat

/-- The bytes of a string literal. -/
def ascii (characters : String) : List UInt8 :=
  characters.toList.map fun character => UInt8.ofNat character.toNat

def banner : CString :=
  ⟨ascii "\nHelios console ready. Type 'help' for commands.\n", by decide⟩

def promptText : CString := ⟨ascii "helios> ", by decide⟩

def helpText : List CString :=
  [⟨ascii "Available commands:\n", by decide⟩,
    ⟨ascii "  help   - show this help\n", by decide⟩,
    ⟨ascii "  clear  - clear screen\n", by decide⟩,
    ⟨ascii "  exec   - run /bin/init (if loaded)\n", by decide⟩]

def execFailed : CString := ⟨ascii "Exec failed.\n", by decide⟩

def unknownCommand : CString := ⟨ascii "Unknown command: ", by decide⟩

/-- `screen_setcolor`, `screen_putchar` and `screen_putstr` on the screen of a
console. -/
def setcolor (console : Syscall.Console) (fg bg : UInt8) : Syscall.Console :=
  { console with screen := screenSetcolor console.screen fg bg }

def putchar (console : Syscall.Console) (c : UInt8) : Syscall.Console :=
  { console with screen := screenPutchar console.screen c }

def putstr (console : Syscall.Console) (str : CString) : Syscall.Console :=
  { console with screen := screenPutstr console.screen str }

/-- A round up to the input loop. -/
def prompt (frame : Frame) (console : Syscall.Console) : Input :=
  let console := setcolor (putstr (setcolor console 10 0) promptText) 7 0
  ⟨{ console with memory := console.memory.fill frame.cmd 128 0 }, 0⟩

/-- What the input loop does with a character, and whether it leaves the loop. -/
def takeChar (frame : Frame) (input : Input) (c : UInt8) : Input × Bool :=
  if c = 10 then
    let memory := input.memory.store8 (frame.cmd + input.pos) 0
    (⟨putchar { input.toConsole with memory } 10, input.pos⟩, true)
  else if c = 8 ∨ c = 127 then
    if input.pos > 0 then
      (⟨putchar (putchar (putchar input.toConsole 8) 32) 8, input.pos - 1⟩, false)
    else (input, false)
  else if input.pos < 126 then
    let memory := input.memory.store8 (frame.cmd + input.pos) c
    (⟨putchar { input.toConsole with memory } c, input.pos + 1⟩, false)
  else (input, false)

/-- One pass of the input loop. -/
def inputPass (behind : UInt8) (frame : Frame) (input : Input) : Port (Input × Bool) := do
  let (console, n) ← sysRead behind input.toConsole 0 frame.c 1
  let input := { input with toConsole := console }
  if n ≤ 0 then pure (input, false) else pure (takeChar frame input (console.memory frame.c))

/-- A round up to the dispatch. -/
def readCommand (behind : UInt8) (frame : Frame) (console : Syscall.Console) :
    Port Syscall.Console := do
  let input ← Port.loop (inputPass behind frame) (prompt frame console)
  pure input.toConsole

/-- The string at `cmd`, when it is terminated within the buffer. -/
def command (frame : Frame) (console : Syscall.Console) : Option (List UInt8) :=
  let string := console.memory.text frame.cmd 128
  if string.length < 128 then some string else none

/-- The dispatch; `execve` is the call of `sys_execve` for `/bin/init`. -/
def dispatch (execve : Syscall.Console → Syscall.Console × Int) (frame : Frame)
    (console : Syscall.Console) : Syscall.Console :=
  let cmd := console.memory.text frame.cmd 128
  if strcmp cmd (ascii "help") = 0 then helpText.foldl putstr console
  else if strcmp cmd (ascii "clear") = 0 then
    { console with screen := screenClear console.screen }
  else if strcmp cmd (ascii "exec") = 0 then
    let (console, ret) := execve console
    if ret ≠ 0 then setcolor (putstr (setcolor console 4 0) execFailed) 7 0 else console
  else if cmd.length > 0 then
    let console := putstr console unknownCommand
    putchar { console with screen := cmd.foldl screenPutchar console.screen } 10
  else console

/-- The first rounds of the outer loop, with what each hands to the dispatch. -/
def rounds (execve : Syscall.Console → Syscall.Console × Int) (behind : UInt8) (frame : Frame) :
    Nat → Syscall.Console → Port (List (Option (List UInt8)))
  | 0, _ => pure []
  | count + 1, console => do
      let console ← readCommand behind frame console
      let commands ← rounds execve behind frame count (dispatch execve frame console)
      pure (command frame console :: commands)

/-- `console_process` up to the dispatch of round `count`. -/
def consoleProcess (execve : Syscall.Console → Syscall.Console × Int) (behind : UInt8)
    (frame : Frame) (count : Nat) (console : Syscall.Console) :
    Port (List (Option (List UInt8))) :=
  rounds execve behind frame count (putstr (setcolor console 7 0) banner)

/-- The character that a call of `sys_read` for one character stores for a key. -/
def heard (behind : UInt8) (key : Nat) : Option UInt8 :=
  if key = 0x1B then if behind = 0 then none else some behind else decode key

/-- The input loop with a character stored and echoed by `sys_read`. -/
def echo (frame : Frame) (input : Input) (c : UInt8) : Input :=
  { input with
    memory := input.memory.store8 frame.c c
    screen := screenPutchar input.screen c }

/-- What a key does to the input loop, if it does not end it. -/
def strike (behind : UInt8) (frame : Frame) (input : Input) (key : Nat) : Input :=
  match heard behind (key % 256) with
  | none => input
  | some c => (takeChar frame (echo frame input c) c).1

section

variable {behind c : UInt8} {frame : Frame} {console : Syscall.Console} {input : Input}
variable {key : Nat} {keys rest : List Nat}

theorem readKey_heard {buf : Nat} : readKey behind buf 1 ⟨console, 0⟩ key =
    match heard behind key with
    | none => (⟨console, 0⟩, false)
    | some c => (⟨⟨console.memory.store8 buf c, screenPutchar console.screen c⟩, 1⟩, c = 10) := by
  unfold heard
  by_cases bracket : key = 0x1B
  · subst bracket
    have char : switchKey behind buf ⟨console, 0⟩ 0x1B = (⟨console, 0⟩, behind) := rfl
    rw [readKey, if_pos (by decide), char]
    by_cases zero : behind = 0
    · simp [zero]
    · simp [zero]
  · rw [if_neg bracket, readKey]
    by_cases released : key < 0x80
    · by_cases back : key = 0x0E
      · subst back
        rfl
      · rw [if_pos released, switchKey_typed bracket back]
        cases decoded : decode key with
        | none => simp
        | some c => simp [decode_nonzero decoded]
    · rw [if_neg released, decode_release (by omega)]

theorem sysRead_one_silent {buf : Nat} (silent : heard behind (key % 256) = none) :
    (sysRead behind console 0 buf 1 (key :: rest)).result =
      (sysRead behind console 0 buf 1 rest).result := by
  rw [sysRead, if_pos rfl]
  apply Port.bind_result_congr
  rw [Port.readWhile, if_pos (by simp), readKey_heard, silent]
  rfl

theorem sysRead_one_heard {buf : Nat} (hears : heard behind (key % 256) = some c) :
    (sysRead behind console 0 buf 1 (key :: rest)).result =
      some ((⟨console.memory.store8 buf c, screenPutchar console.screen c⟩, 1), rest) := by
  have loop : (Port.readWhile 0x60 (fun line : Line => line.i < 1) (readKey behind buf 1)
      ⟨console, 0⟩ (key :: rest)).result =
        some (⟨⟨console.memory.store8 buf c, screenPutchar console.screen c⟩, 1⟩, rest) := by
    rw [Port.readWhile, if_pos (by simp), readKey_heard, hears]
    by_cases newline : c = 10
    · simp [newline]
    · simp [newline, Port.readWhile_idle]
  rw [sysRead, if_pos rfl, Port.bind_finished loop]
  rfl

theorem inputPass_nil : (inputPass behind frame input []).result = none := rfl

theorem inputPass_silent (silent : heard behind (key % 256) = none) :
    (inputPass behind frame input (key :: rest)).result =
      (inputPass behind frame input rest).result :=
  Port.bind_result_congr (sysRead_one_silent silent)

theorem inputPass_heard (hears : heard behind (key % 256) = some c) :
    (inputPass behind frame input (key :: rest)).result =
      some (takeChar frame (echo frame input c) c, rest) := by
  rw [inputPass, Port.bind_finished (sysRead_one_heard hears)]
  simp only [show ¬ (1 : Int) ≤ 0 by decide, if_false, Memory.store8_same]
  rfl

theorem inputPass_takes : Port.Takes (inputPass behind frame input) := by
  intro answers value left finished
  induction answers with
  | nil => cases finished
  | cons key others ih =>
      rw [List.length_cons]
      cases hears : heard behind (key % 256) with
      | none =>
          rw [inputPass_silent hears] at finished
          exact Nat.lt_succ_of_lt (ih finished)
      | some c =>
          rw [inputPass_heard hears] at finished
          cases finished
          exact Nat.lt_succ_self _

theorem printable_ordinary (printable : 32 ≤ c ∧ c < 127) :
    c ≠ 8 ∧ c ≠ 9 ∧ c ≠ 10 ∧ c ≠ 13 ∧ c ≠ 127 := by
  have outside : ∀ control : UInt8, ¬ (32 ≤ control ∧ control < 127) → c ≠ control := by
    rintro control other rfl
    exact other printable
  exact ⟨outside 8 (by decide), outside 9 (by decide), outside 10 (by decide),
    outside 13 (by decide), outside 127 (by decide)⟩

theorem takeChar_printable (printable : 32 ≤ c ∧ c < 127) : takeChar frame input c =
    if input.pos < 126 then
      (⟨⟨input.memory.store8 (frame.cmd + input.pos) c, screenPutchar input.screen c⟩,
        input.pos + 1⟩, false)
    else (input, false) := by
  obtain ⟨erase, _, newline, _, delete⟩ := printable_ordinary printable
  rw [takeChar, if_neg newline, if_neg (by simp [erase, delete])]
  rfl

theorem takeChar_leaves : (takeChar frame input c).2 = true ↔ c = 10 := by
  unfold takeChar
  by_cases newline : c = 10
  · simp [newline]
  · rw [if_neg newline]
    split_ifs <;> simp [newline]

theorem loop_nil : (Port.loop (inputPass behind frame) input []).result = none := rfl

theorem loop_silent (silent : heard behind (key % 256) = none) :
    (Port.loop (inputPass behind frame) input (key :: rest)).result =
      (Port.loop (inputPass behind frame) input rest).result := by
  rw [Port.loop_eq fun _ => inputPass_takes]
  exact Port.bind_result_congr (inputPass_silent silent)

theorem loop_heard (hears : heard behind (key % 256) = some c) :
    (Port.loop (inputPass behind frame) input (key :: rest)).result =
      if c = 10 then some ((takeChar frame (echo frame input c) c).1, rest)
      else (Port.loop (inputPass behind frame) (takeChar frame (echo frame input c) c).1
        rest).result := by
  rw [Port.loop_eq fun _ => inputPass_takes, Port.bind_finished (inputPass_heard hears)]
  by_cases newline : c = 10
  · rw [if_pos newline, if_pos (takeChar_leaves.mpr newline)]
    rfl
  · rw [if_neg newline, if_neg (mt takeChar_leaves.mp newline)]

theorem loop_strike (other : heard behind (key % 256) ≠ some 10) :
    (Port.loop (inputPass behind frame) input (key :: rest)).result =
      (Port.loop (inputPass behind frame) (strike behind frame input key) rest).result := by
  unfold strike
  cases hears : heard behind (key % 256) with
  | none => exact loop_silent hears
  | some c =>
      rw [loop_heard hears, if_neg fun newline => other (hears.trans (congrArg some newline))]

/-- Without a newline the loop waits for more keys. -/
theorem loop_waits (others : ∀ key ∈ keys, heard behind (key % 256) ≠ some 10) :
    (Port.loop (inputPass behind frame) input keys).result = none := by
  induction keys generalizing input with
  | nil => exact loop_nil
  | cons key rest ih =>
      rw [loop_strike (others key (by simp))]
      exact ih fun other member => others other (by simp [member])

theorem loop_enters (others : ∀ key ∈ keys, heard behind (key % 256) ≠ some 10)
    (enter : heard behind (key % 256) = some 10) :
    (Port.loop (inputPass behind frame) input (keys ++ key :: rest)).result =
      some ((takeChar frame (echo frame (keys.foldl (strike behind frame) input) 10) 10).1,
        rest) := by
  induction keys generalizing input with
  | nil =>
      rw [List.nil_append, loop_heard enter, if_pos rfl]
      rfl
  | cons first later ih =>
      rw [List.cons_append, loop_strike (others first (by simp))]
      exact ih fun other member => others other (by simp [member])

theorem readCommand_newline (others : ∀ key ∈ keys, heard behind (key % 256) ≠ some 10)
    (enter : heard behind (key % 256) = some 10) :
    (readCommand behind frame console (keys ++ key :: rest)).result =
      some ((takeChar frame (echo frame (keys.foldl (strike behind frame) (prompt frame console))
        10) 10).1.toConsole, rest) := by
  rw [readCommand, Port.bind_finished (loop_enters others enter)]
  rfl

end

end Helios.Console
