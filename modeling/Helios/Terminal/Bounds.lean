import Helios.Data.Run
import Helios.Terminal.Page

namespace Helios.Terminal

open Helios.Data Helios.Strings

/-! The functions of `screen.c` with the bounds of the buffer and of the cursor
fields checked.

A checked function computes what its source computes, and has no value where
the source reads or writes a cell outside the 80 by 25 buffer, or stores in an
8-bit cursor field a value that does not fit. -/

def readCell (screen : Screen) (index : Nat) : Option Nat :=
  if index < vgaWidth * vgaHeight then some (screen.buffer index) else none

def writeCell (screen : Screen) (index value : Nat) : Option Screen :=
  if index < vgaWidth * vgaHeight then
    some { screen with buffer := Function.update screen.buffer index value }
  else none

/-- A value for an 8-bit field. -/
def cursorField (value : Nat) : Option Nat := if value < 256 then some value else none

def checkedScreenClear (screen : Screen) : Option Screen :=
  let blank := makeVgaentry 32 screen.color
  ((List.range (vgaWidth * vgaHeight)).foldlM
    (fun screen index => writeCell screen index blank) screen).map fun screen =>
      screenSetCursor { screen with cursorX := 0, cursorY := 0 } 0 0

def checkedScreenInit (screen : Screen) : Option Screen :=
  checkedScreenClear (screenSetcolor screen 7 0)

def checkedScreenScroll (screen : Screen) : Option Screen := do
  let blank := makeVgaentry 32 screen.color
  let screen ← (List.range (vgaHeight - 1)).foldlM (fun screen y =>
    (List.range vgaWidth).foldlM (fun screen x => do
      let cell ← readCell screen ((y + 1) * vgaWidth + x)
      writeCell screen (y * vgaWidth + x) cell) screen) screen
  (List.range vgaWidth).foldlM
    (fun screen x => writeCell screen ((vgaHeight - 1) * vgaWidth + x) blank) screen

def checkedTypeChar (screen : Screen) (c : UInt8) : Option Screen :=
  if c = 10 then
    (cursorField (screen.cursorY + 1)).map fun cursorY => { screen with cursorX := 0, cursorY }
  else if c = 13 then some { screen with cursorX := 0 }
  else if c = 9 then
    (cursorField ((screen.cursorX + 8) &&& 0xFFFFFFF8)).map fun cursorX => { screen with cursorX }
  else if c = 8 then
    if screen.cursorX > 0 then some { screen with cursorX := screen.cursorX - 1 } else some screen
  else do
    let screen ← writeCell screen (screen.cursorY * vgaWidth + screen.cursorX)
      (makeVgaentry c screen.color)
    let cursorX ← cursorField (screen.cursorX + 1)
    some { screen with cursorX }

def checkedWrapLine (screen : Screen) : Option Screen :=
  if screen.cursorX ≥ vgaWidth then
    (cursorField (screen.cursorY + 1)).map fun cursorY => { screen with cursorX := 0, cursorY }
  else some screen

def checkedScrollPage (screen : Screen) : Option Screen :=
  if screen.cursorY ≥ vgaHeight then
    (checkedScreenScroll screen).map fun screen => { screen with cursorY := vgaHeight - 1 }
  else some screen

def checkedScreenPutchar (screen : Screen) (c : UInt8) : Option Screen := do
  let screen ← checkedTypeChar screen c
  let screen ← checkedWrapLine screen
  let screen ← checkedScrollPage screen
  some (screenSetCursor screen screen.cursorX screen.cursorY)

def checkedScreenPutstr (screen : Screen) (str : CString) : Option Screen :=
  str.val.foldlM checkedScreenPutchar screen

def checkedScreenPuthex (screen : Screen) (n : Nat) : Option Screen := do
  let screen ← checkedScreenPutstr screen hexPrefix
  [28, 24, 20, 16, 12, 8, 4, 0].foldlM
    (fun screen shift => checkedScreenPutchar screen (hexDigit (n >>> shift &&& 0xF))) screen

def checkedScreenPutdec (screen : Screen) (n : Nat) : Option Screen :=
  if n = 0 then checkedScreenPutchar screen 48
  else (decDigits n).reverse.foldlM checkedScreenPutchar screen

/-- A call of one of the functions that change the screen. -/
inductive Call where
  | write (event : Event)
  | clear
  | scroll

def call (screen : Screen) : Call → Screen
  | .write event => step screen event
  | .clear => screenClear screen
  | .scroll => screenScroll screen

def checkedCall (screen : Screen) : Call → Option Screen
  | .write (.setcolor fg bg) => some (screenSetcolor screen fg bg)
  | .write (.putchar c) => checkedScreenPutchar screen c
  | .write (.putstr str) => checkedScreenPutstr screen str
  | .write (.putdec n) => checkedScreenPutdec screen n
  | .write (.puthex n) => checkedScreenPuthex screen n
  | .clear => checkedScreenClear screen
  | .scroll => checkedScreenScroll screen

/-- The cursor is on the screen. -/
structure Inside (screen : Screen) : Prop where
  column : screen.cursorX < 80
  row : screen.cursorY < 25

section

variable {screen : Screen} {c : UInt8}

/-- Steps that all pass their checks compute what the unchecked steps compute. -/
theorem foldlM_eq_some {σ ι : Type} {checked : σ → ι → Option σ} {unchecked : σ → ι → σ}
    (invariant : σ → Prop) {inputs : List ι} {state : σ} (initial : invariant state)
    (passes : ∀ state, ∀ input ∈ inputs, invariant state →
      checked state input = some (unchecked state input) ∧ invariant (unchecked state input)) :
    inputs.foldlM checked state = some (inputs.foldl unchecked state) ∧
      invariant (inputs.foldl unchecked state) := by
  induction inputs generalizing state with
  | nil => exact ⟨rfl, initial⟩
  | cons input rest ih =>
      obtain ⟨here, kept⟩ := passes state input (by simp) initial
      obtain ⟨later, final⟩ := ih kept fun state other member => passes state other (by simp [member])
      refine ⟨?_, final⟩
      rw [List.foldlM_cons, here]
      exact later

theorem readCell_eq {index : Nat} (inside : index < 2000) :
    readCell screen index = some (screen.buffer index) := if_pos inside

theorem writeCell_eq {index value : Nat} (inside : index < 2000) : writeCell screen index value =
    some { screen with buffer := Function.update screen.buffer index value } :=
  if_pos inside

theorem cursorField_eq {value : Nat} (small : value < 256) : cursorField value = some value :=
  if_pos small

theorem fill_eq {value start count : Nat} (inside : start + count ≤ 2000) (screen : Screen) :
    (List.range count).foldlM (fun screen index => writeCell screen (start + index) value) screen =
      some { screen with buffer := fillCells value start count screen.buffer } := by
  have passes : (List.range count).foldlM
      (fun screen index => writeCell screen (start + index) value) screen =
        some ((List.range count).foldl (fun screen index =>
          { screen with buffer := Function.update screen.buffer (start + index) value }) screen) :=
    (foldlM_eq_some (fun _ => True) trivial fun state index member _ => by
      have below := List.mem_range.mp member
      exact ⟨writeCell_eq (by omega), trivial⟩).1
  rw [passes, fillCells]
  exact congrArg some
    (List.foldl_hom (fun buffer => { screen with buffer }) fun _ _ => rfl)

theorem moveCell_eq {source target : Nat} (readable : source < 2000) (writable : target < 2000) :
    (readCell screen source).bind (writeCell screen target) =
      some { screen with
        buffer := Function.update screen.buffer target (screen.buffer source) } := by
  rw [readCell_eq readable, Option.bind_some, writeCell_eq writable]

theorem copyRow_eq {y : Nat} (inside : y < 24) (screen : Screen) :
    (List.range vgaWidth).foldlM (fun screen x =>
      (readCell screen ((y + 1) * vgaWidth + x)).bind (writeCell screen (y * vgaWidth + x))) screen =
      some { screen with buffer := copyDown vgaWidth (y * vgaWidth) vgaWidth screen.buffer } := by
  have passes : (List.range vgaWidth).foldlM (fun screen x =>
      (readCell screen ((y + 1) * vgaWidth + x)).bind (writeCell screen (y * vgaWidth + x))) screen =
        some ((List.range vgaWidth).foldl (fun screen x =>
          { screen with
            buffer := Function.update screen.buffer (y * vgaWidth + x)
              (screen.buffer (y * vgaWidth + x + vgaWidth)) }) screen) :=
    (foldlM_eq_some (fun _ => True) trivial fun state x member _ => by
      have below : x < 80 := List.mem_range.mp member
      have source : (y + 1) * vgaWidth + x = y * vgaWidth + x + vgaWidth := by
        simp only [vgaWidth]
        omega
      rw [source]
      simp only [vgaWidth]
      exact ⟨moveCell_eq (by omega) (by omega), trivial⟩).1
  rw [passes, copyDown]
  exact congrArg some
    (List.foldl_hom (fun buffer => { screen with buffer }) fun _ _ => rfl)

theorem checkedScreenScroll_eq (screen : Screen) :
    checkedScreenScroll screen = some (screenScroll screen) := by
  have rows : (List.range (vgaHeight - 1)).foldlM (fun screen y =>
      (List.range vgaWidth).foldlM (fun screen x =>
        (readCell screen ((y + 1) * vgaWidth + x)).bind
          (writeCell screen (y * vgaWidth + x))) screen) screen =
        some ((List.range (vgaHeight - 1)).foldl (fun screen y =>
          { screen with
            buffer := copyDown vgaWidth (y * vgaWidth) vgaWidth screen.buffer }) screen) :=
    (foldlM_eq_some (fun _ => True) trivial fun state y member _ =>
      ⟨copyRow_eq (List.mem_range.mp member) state, trivial⟩).1
  have copied : (List.range (vgaHeight - 1)).foldl (fun screen y =>
      { screen with buffer := copyDown vgaWidth (y * vgaWidth) vgaWidth screen.buffer }) screen =
        { screen with buffer := copyRows vgaWidth (vgaHeight - 1) screen.buffer } :=
    List.foldl_hom (fun buffer => { screen with buffer }) fun _ _ => rfl
  rw [copied] at rows
  simp only [checkedScreenScroll, bind] at rows ⊢
  rw [rows, Option.bind_some]
  exact fill_eq (by decide) _

theorem checkedScreenClear_eq (screen : Screen) :
    checkedScreenClear screen = some (screenClear screen) := by
  have filled := @fill_eq (makeVgaentry 32 screen.color) 0 (vgaWidth * vgaHeight) (by decide) screen
  simp only [Nat.zero_add] at filled
  rw [checkedScreenClear, filled, Option.map_some, screenClear]

namespace Inside

theorem setCursor (inside : Inside screen) :
    Inside (screenSetCursor screen screen.cursorX screen.cursorY) := ⟨inside.column, inside.row⟩

/-- After the character itself the cursor may stand one column to the right of
the screen, or at the start of the row below it. -/
theorem typeChar (inside : Inside screen) (c : UInt8) :
    checkedTypeChar screen c = some (typeChar screen c) ∧
      ((Terminal.typeChar screen c).cursorX ≤ 80 ∧ (Terminal.typeChar screen c).cursorY < 25 ∨
        (Terminal.typeChar screen c).cursorX = 0 ∧ (Terminal.typeChar screen c).cursorY = 25) := by
  have column := inside.column
  have row := inside.row
  have nextRow : screen.cursorY + 1 < 256 := by omega
  have nextColumn : screen.cursorX + 1 < 256 := by omega
  unfold checkedTypeChar Terminal.typeChar
  split_ifs with newline back tab erase right
  · rw [cursorField_eq nextRow, Nat.mod_eq_of_lt nextRow]
    refine ⟨rfl, ?_⟩
    show 0 ≤ 80 ∧ screen.cursorY + 1 < 25 ∨ 0 = 0 ∧ screen.cursorY + 1 = 25
    omega
  · exact ⟨rfl, .inl ⟨Nat.zero_le 80, row⟩⟩
  · have rounded : (screen.cursorX + 8) &&& 0xFFFFFFF8 = (screen.cursorX + 8) / 8 * 8 :=
      and_highMask (show screen.cursorX + 8 < 2 ^ (29 + 3) by omega)
    have fits : (screen.cursorX + 8) / 8 * 8 < 256 := by omega
    rw [rounded, cursorField_eq fits, Nat.mod_eq_of_lt fits]
    exact ⟨rfl, by simp only; omega⟩
  · exact ⟨rfl, by simp only; omega⟩
  · exact ⟨rfl, by omega⟩
  · have cell : screen.cursorY * vgaWidth + screen.cursorX < 2000 := by
      simp only [vgaWidth]
      omega
    simp only [bind, writeCell_eq cell, Option.bind_some, cursorField_eq nextColumn,
      Nat.mod_eq_of_lt nextColumn]
    exact ⟨trivial, by omega⟩

/-- A cursor one step off the screen comes back to it when the line is wrapped
and the page is scrolled. -/
theorem wrapLine_eq (cursor : screen.cursorX ≤ 80 ∧ screen.cursorY < 25 ∨
    screen.cursorX = 0 ∧ screen.cursorY = 25) :
    checkedWrapLine screen = some (wrapLine screen) ∧
      (wrapLine screen).cursorX < 80 ∧ (wrapLine screen).cursorY ≤ 25 := by
  unfold checkedWrapLine wrapLine
  by_cases full : screen.cursorX ≥ vgaWidth
  · have wide : screen.cursorX ≥ 80 := full
    have fits : screen.cursorY + 1 < 256 := by omega
    rw [if_pos full, if_pos full, cursorField_eq fits, Nat.mod_eq_of_lt fits]
    refine ⟨rfl, Nat.zero_lt_succ 79, ?_⟩
    show screen.cursorY + 1 ≤ 25
    omega
  · have narrow : ¬ screen.cursorX ≥ 80 := full
    rw [if_neg full, if_neg full]
    exact ⟨rfl, by omega, by omega⟩

theorem scrollPage_eq (column : screen.cursorX < 80) (row : screen.cursorY ≤ 25) :
    checkedScrollPage screen = some (scrollPage screen) ∧ Inside (scrollPage screen) := by
  unfold checkedScrollPage scrollPage
  by_cases full : screen.cursorY ≥ vgaHeight
  · rw [if_pos full, if_pos full, checkedScreenScroll_eq, Option.map_some]
    exact ⟨rfl, column, Nat.lt_succ_self 24⟩
  · have height : ¬ screen.cursorY ≥ 25 := full
    rw [if_neg full, if_neg full]
    exact ⟨rfl, column, by omega⟩

theorem putchar (inside : Inside screen) (c : UInt8) :
    checkedScreenPutchar screen c = some (screenPutchar screen c) ∧
      Inside (screenPutchar screen c) := by
  obtain ⟨typed, cursor⟩ := inside.typeChar c
  obtain ⟨wrapped, column, row⟩ := wrapLine_eq cursor
  obtain ⟨scrolled, settled⟩ := scrollPage_eq column row
  refine ⟨?_, settled.setCursor⟩
  simp only [checkedScreenPutchar, bind, typed, wrapped, scrolled, Option.bind_some]
  rfl

theorem text (inside : Inside screen) (bytes : List UInt8) :
    bytes.foldlM checkedScreenPutchar screen = some (bytes.foldl screenPutchar screen) ∧
      Inside (bytes.foldl screenPutchar screen) :=
  foldlM_eq_some Inside inside fun _ c _ inside => inside.putchar c

theorem scroll (inside : Inside screen) : Inside (screenScroll screen) :=
  ⟨inside.column, inside.row⟩

theorem clear (screen : Screen) : Inside (screenClear screen) :=
  ⟨Nat.zero_lt_succ 79, Nat.zero_lt_succ 24⟩

theorem call (inside : Inside screen) (made : Call) :
    checkedCall screen made = some (call screen made) ∧ Inside (Terminal.call screen made) := by
  cases made with
  | clear => exact ⟨checkedScreenClear_eq screen, clear screen⟩
  | scroll => exact ⟨checkedScreenScroll_eq screen, inside.scroll⟩
  | write event =>
      cases event with
      | setcolor fg bg => exact ⟨rfl, inside.column, inside.row⟩
      | putchar c => exact inside.putchar c
      | putstr str => exact inside.text str.val
      | putdec n =>
          simp only [checkedCall, Terminal.call, step, checkedScreenPutdec, screenPutdec]
          split
          · exact inside.putchar 48
          · exact inside.text _
      | puthex n =>
          obtain ⟨started, middle⟩ := inside.text hexPrefix.val
          obtain ⟨digits, final⟩ := foldlM_eq_some Inside middle
            fun state shift (_ : shift ∈ [28, 24, 20, 16, 12, 8, 4, 0]) inside =>
              inside.putchar (hexDigit (n >>> shift &&& 0xF))
          refine ⟨?_, final⟩
          simp only [checkedCall, checkedScreenPuthex, checkedScreenPutstr, bind, started,
            Option.bind_some]
          exact digits

end Inside

/-- From `screen_init`, no call in any sequence leaves the buffer or overflows a
cursor field, and the cursor is on the screen after each of them. -/
theorem screen_calls_inside (screen : Screen) (calls : List Call) :
    (checkedScreenInit screen).bind (fun screen => calls.foldlM checkedCall screen) =
        some (calls.foldl call (screenInit screen)) ∧
      (calls.foldl call (screenInit screen)).cursorX < 80 ∧
      (calls.foldl call (screenInit screen)).cursorY < 25 := by
  have started : checkedScreenInit screen = some (screenInit screen) :=
    checkedScreenClear_eq (screenSetcolor screen 7 0)
  obtain ⟨passes, inside⟩ := foldlM_eq_some Inside (Inside.clear (screenSetcolor screen 7 0))
    fun state (made : Call) (_ : made ∈ calls) inside => inside.call made
  rw [started, Option.bind_some]
  exact ⟨passes, inside.column, inside.row⟩

end

end Helios.Terminal
