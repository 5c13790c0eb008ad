import Helios.Console.Model
import Helios.Terminal.Bounds

namespace Helios.Console

open Helios.Data Helios.Syscall Helios.Terminal

/-! The screen against the command that is being typed.

`sys_read` shows a character when it reads it, and the input loop shows it again
when it stores it. -/

/-- The screen is one that calls can lead to. -/
def Reached (console : Syscall.Console) : Prop :=
  ∃ screen, ∃ calls : List Call, console.screen = calls.foldl call (screenInit screen)

/-- The cell of the cursor. -/
def cell (screen : Screen) : Nat := screen.cursorY * vgaWidth + screen.cursorX

/-- Between the cell `start` and the cursor the screen shows `cmd[0..pos)`. -/
structure Shown (frame : Frame) (start : Nat) (input : Input) : Prop where
  ordered : start ≤ cell input.screen
  characters : (List.range (cell input.screen - start)).map
      (fun index => UInt8.ofNat (input.screen.buffer (start + index))) =
    input.memory.bytes frame.cmd input.pos

/-- A key that has a character, or whose place is behind the literal. -/
def visible (key : Nat) : Bool := (decode key).isSome || key = 0x1B

section

variable {behind c : UInt8} {frame : Frame} {console : Syscall.Console} {input next : Input}
variable {screen : Screen} {start key : Nat} {keys answers : List Nat}

theorem cell_putchar (inside : Inside screen) (printable : 32 ≤ c ∧ c < 127)
    (room : cell screen + 1 < 2000) : cell (screenPutchar screen c) = cell screen + 1 := by
  have column := inside.column
  have row := inside.row
  obtain ⟨erase, tab, newline, back, _⟩ := printable_ordinary printable
  obtain ⟨moved, same⟩ : (typeChar screen c).cursorX = screen.cursorX + 1 ∧
      (typeChar screen c).cursorY = screen.cursorY := by
    rw [typeChar, if_neg newline, if_neg back, if_neg tab, if_neg erase]
    exact ⟨Nat.mod_eq_of_lt (by omega), rfl⟩
  have wrapped : (wrapLine (typeChar screen c)).cursorY < vgaHeight ∧
      cell (wrapLine (typeChar screen c)) = cell screen + 1 := by
    simp only [cell, vgaWidth, vgaHeight] at room ⊢
    rw [wrapLine, moved, same]
    by_cases full : screen.cursorX + 1 ≥ vgaWidth
    · have last : screen.cursorX + 1 = 80 := by
        simp only [vgaWidth] at full
        omega
      rw [if_pos full]
      simp only
      omega
    · rw [if_neg full, moved, same]
      omega
  have page : scrollPage (wrapLine (typeChar screen c)) = wrapLine (typeChar screen c) :=
    if_neg (Nat.not_le.mpr wrapped.1)
  rw [← wrapped.2, cell, cell, screenPutchar, page, screenSetCursor]

/-- Keys without a character do not finish a pass. -/
theorem inputPass_skips (silent : ∀ key ∈ keys, heard behind (key % 256) = none) :
    (inputPass behind frame input (keys ++ answers)).result =
      (inputPass behind frame input answers).result := by
  induction keys with
  | nil => rfl
  | cons key rest ih =>
      rw [List.cons_append, inputPass_silent (silent key (by simp))]
      exact ih fun other member => silent other (by simp [member])

theorem inputPass_waits (silent : ∀ key ∈ keys, heard behind (key % 256) = none) :
    (inputPass behind frame input keys).result = none := by
  have skipped := @inputPass_skips behind frame input keys [] silent
  rw [List.append_nil] at skipped
  exact skipped.trans inputPass_nil

theorem heard_invisible (small : key < 256) (invisible : visible key = false) :
    heard behind (key % 256) = none := by
  obtain ⟨unmapped, bracket⟩ : decode key = none ∧ key ≠ 0x1B := by
    simpa [visible] using invisible
  rw [heard, Nat.mod_eq_of_lt small, if_neg bracket, unmapped]

/-- With an `a` behind the literal, every visible key but Enter is printable. -/
theorem heard_visible (small : key < 256) (seen : visible key = true) (enter : key ≠ 0x1C) :
    ∃ c, heard 97 (key % 256) = some c ∧ 32 ≤ c ∧ c < 127 := by
  rw [heard, Nat.mod_eq_of_lt small]
  by_cases bracket : key = 0x1B
  · exact ⟨97, by rw [if_pos bracket]; rfl, by decide⟩
  · obtain ⟨c, decoded⟩ : ∃ c, decode key = some c := by
      simpa [visible, bracket, Option.isSome_iff_exists] using seen
    rw [if_neg bracket]
    rcases decode_printable decoded with ⟨same, _⟩ | ⟨_, printable⟩
    · exact absurd same enter
    · exact ⟨c, decoded, printable⟩

theorem Shown.prompt : Shown frame (cell (prompt frame console).screen) (prompt frame console) := by
  refine ⟨le_rfl, ?_⟩
  rw [Nat.sub_self]
  rfl

/-- Nothing has been typed at the head of the loop. -/
theorem head_silent {first : Input} (head : Port.Head (inputPass behind frame) first keys input)
    (silent : ∀ key ∈ keys, heard behind (key % 256) = none) : input = first := by
  cases head with
  | first => rfl
  | again _ finished =>
      rw [inputPass_waits fun key member => silent key (by simp [member])] at finished
      cases finished

/-- The head of the loop behind the first character. -/
theorem head_typed (silent : ∀ other ∈ keys, heard behind (other % 256) = none)
    (hears : heard behind (key % 256) = some c) (printable : 32 ≤ c ∧ c < 127) :
    Port.Head (inputPass behind frame) input (keys ++ [key])
      (takeChar frame (echo frame input c) c).1 := by
  have finished : (inputPass behind frame input (keys ++ [key])).result =
      some (takeChar frame (echo frame input c) c, []) := by
    rw [inputPass_skips silent]
    exact inputPass_heard hears
  have stays : (takeChar frame (echo frame input c) c).2 = false := by
    rw [← Bool.not_eq_true, takeChar_leaves]
    exact (printable_ordinary printable).2.2.1
  rw [← List.nil_append (keys ++ [key])]
  exact .again .first (finished.trans (by rw [← stays]))

/-- The first character is on the screen twice. -/
theorem first_doubled (inside : Inside input.screen) (empty : input.pos = 0)
    (printable : 32 ≤ c ∧ c < 127) (room : cell input.screen + 2 < 2000) :
    ¬ Shown frame (cell input.screen) (takeChar frame (echo frame input c) c).1 := by
  intro shown
  have echoed : cell (screenPutchar input.screen c) = cell input.screen + 1 :=
    cell_putchar inside printable (by omega)
  have doubled : cell (screenPutchar (screenPutchar input.screen c) c) = cell input.screen + 2 :=
    (cell_putchar (inside.putchar c).2 printable (by omega)).trans
      (congrArg (fun value => value + 1) echoed)
  have characters := shown.characters
  rw [takeChar_printable printable,
    if_pos (show (echo frame input c).pos < 126 from empty ▸ by decide)] at characters
  have lengths := congrArg List.length characters
  rw [List.length_map, List.length_range, Memory.bytes_length] at lengths
  have more : cell (screenPutchar (screenPutchar input.screen c) c) - cell input.screen =
      input.pos + 1 := lengths
  omega

theorem Reached.inside (reached : Reached console) : Inside console.screen := by
  obtain ⟨screen, calls, same⟩ := reached
  rw [same]
  exact (foldlM_eq_some Inside (Inside.clear (screenSetcolor screen 7 0))
    fun state (made : Call) (_ : made ∈ calls) inside => inside.call made).2

theorem setcolor_inside {fg bg : UInt8} (inside : Inside screen) :
    Inside (screenSetcolor screen fg bg) := ⟨inside.column, inside.row⟩

theorem prompt_inside (inside : Inside console.screen) :
    Inside (prompt frame console).screen := by
  have shown : Inside (screenPutstr (screenSetcolor console.screen 10 0) promptText) := by
    rw [screenPutstr]
    exact ((setcolor_inside inside).text promptText.val).2
  exact setcolor_inside shown

theorem first_visible (seen : ∃ key ∈ keys, visible key = true) : ∃ front key back,
    keys = front ++ key :: back ∧ visible key = true ∧ ∀ other ∈ front, visible other = false := by
  obtain ⟨key, found⟩ := Option.isSome_iff_exists.mp (List.find?_isSome.mpr seen)
  obtain ⟨shows, front, back, split, others⟩ := List.find?_eq_some_iff_append.mp found
  exact ⟨front, key, back, split, shows, fun other member => by simpa using others other member⟩

/-- For any scancodes without Enter that do not scroll the screen, the screen shows
`cmd[0..pos)` behind the prompt whenever the input loop starts a pass, whatever
byte is behind the literal, if and only if none of the scancodes is visible. -/
theorem screen_shows_command_iff (frame : Frame) (console : Syscall.Console)
    (reached : Reached console) (scancodes : List UInt8)
    (enter : 0x1C ∉ scancodes.map UInt8.toNat)
    (unscrolled : cell (prompt frame console).screen +
      (scancodes.map UInt8.toNat).countP visible +
      min ((scancodes.map UInt8.toNat).countP visible) 126 < 2000) :
    (∀ behind read input, read <+: scancodes.map UInt8.toNat →
      Port.Head (inputPass behind frame) (prompt frame console) read input →
      Shown frame (cell (prompt frame console).screen) input) ↔
      ∀ key ∈ scancodes.map UInt8.toNat, visible key = false := by
  have small := @scancodes_small scancodes
  generalize scancodes.map UInt8.toNat = keys at *
  constructor
  · intro shows
    by_contra seen
    obtain ⟨front, key, back, rfl, typed, others⟩ : ∃ front key back,
        keys = front ++ key :: back ∧ visible key = true ∧
          ∀ other ∈ front, visible other = false := first_visible (by simpa using seen)
    obtain ⟨c, hears, printable⟩ :=
      heard_visible (small key (by simp)) typed fun same => enter (by simp [same])
    have silent : ∀ other ∈ front, heard 97 (other % 256) = none := fun other member =>
      heard_invisible (small other (by simp [member])) (others other member)
    have room : cell (prompt frame console).screen + 2 < 2000 := by
      have counted : 0 < (front ++ key :: back).countP visible :=
        List.countP_pos_iff.mpr ⟨key, by simp, typed⟩
      omega
    exact first_doubled (prompt_inside reached.inside) rfl printable room
      (shows 97 _ _ ⟨back, by simp⟩ (head_typed silent hears printable))
  · intro invisible behind read input early head
    have silent : ∀ key ∈ read, heard behind (key % 256) = none := fun key member =>
      heard_invisible (small key (early.subset member)) (invisible key (early.subset member))
    rw [head_silent head silent]
    exact Shown.prompt

theorem screen_shows_command_booted :
    let frame : Frame := ⟨4096, 0, by decide⟩
    let console : Syscall.Console := ⟨fun _ => 0, screenInit ⟨fun _ => 0, 0, 0, 0, 0, fun _ => 0⟩⟩
    ¬ ∀ behind read input, read <+: [0x10] →
      Port.Head (inputPass behind frame) (prompt frame console) read input →
      Shown frame (cell (prompt frame console).screen) input := by
  intro frame console shows
  have silent := (screen_shows_command_iff frame console ⟨_, [], rfl⟩ [0x10] (by decide)
    (by decide)).mp shows
  exact absurd (silent 0x10 (by decide)) (by decide)

/-- After the key of the `q` the screen shows `"qq"`, and the command is `"q"`. -/
theorem key_shown_twice :
    let frame : Frame := ⟨4096, 0, by decide⟩
    let console : Syscall.Console := ⟨fun _ => 0, screenInit ⟨fun _ => 0, 0, 0, 0, 0, fun _ => 0⟩⟩
    let start := cell (prompt frame console).screen
    ∃ input, Port.Head (inputPass 0 frame) (prompt frame console) [0x10] input ∧
      cell input.screen = start + 2 ∧
      (input.screen.buffer start % 256, input.screen.buffer (start + 1) % 256) = (113, 113) ∧
      input.memory.bytes frame.cmd input.pos = [113] ∧ ¬ Shown frame start input := by
  intro frame console start
  have pressed : Port.Head (inputPass 0 frame) (prompt frame console) [0x10]
      (takeChar frame (echo frame (prompt frame console) 113) 113).1 :=
    @head_typed 0 113 frame (prompt frame console) 0x10 [] (by simp) rfl (by decide)
  refine ⟨_, pressed, by decide, by decide, by decide, fun shown => ?_⟩
  have reached : Reached console := ⟨_, [], rfl⟩
  exact first_doubled (prompt_inside reached.inside) rfl (by decide) (by decide) shown

end

end Helios.Console
