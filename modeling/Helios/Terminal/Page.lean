import Helios.Terminal.Model

namespace Helios.Terminal

open Helios.Data Helios.Strings

/-! The screen as a window on a tall page.

The page has no last row and is never scrolled; the window shows its rows up to
the cursor's, or its first rows while the cursor is among them. -/

structure Page where
  cell : Nat → Nat → UInt8
  row : Nat
  column : Nat

namespace Page

def blank : Page := ⟨fun _ _ => 32, 0, 0⟩

/-- The character itself. -/
def type (page : Page) (c : UInt8) : Page :=
  if c = 10 then { page with row := page.row + 1, column := 0 }
  else if c = 13 then { page with column := 0 }
  else if c = 9 then { page with column := (page.column / 8 + 1) * 8 }
  else if c = 8 then { page with column := page.column - 1 }
  else
    { page with
      cell := Function.update page.cell page.row
        (Function.update (page.cell page.row) page.column c)
      column := page.column + 1 }

/-- The end of a row of 80 columns. -/
def wrap (page : Page) : Page :=
  if 80 ≤ page.column then { page with row := page.row + 1, column := 0 } else page

def put (page : Page) (c : UInt8) : Page := (page.type c).wrap

/-- The first row of the window. -/
def top (page : Page) : Nat := page.row - 24

end Page

/-- The decimal digits of a number, the first digit first. -/
def decimal (n : Nat) : List UInt8 :=
  if n = 0 then [48] else ((Nat.digits 10 n).map fun digit => UInt8.ofNat (48 + digit)).reverse

/-- `"0x"` and the eight hexadecimal digits of a number. -/
def hexadecimal (n : Nat) : List UInt8 :=
  48 :: 120 :: (List.range 8).map fun place => hexDigit (n / 16 ^ (7 - place) % 16)

/-- The characters that a call writes. -/
def characters : Event → List UInt8
  | .setcolor _ _ => []
  | .putchar c => [c]
  | .putstr str => str.val
  | .putdec n => decimal n
  | .puthex n => hexadecimal n

/-- The screen shows the rows of the page from `top` on; below row `last` the page
is blank. -/
structure Shows (screen : Screen) (page : Page) (top last : Nat) : Prop where
  column : screen.cursorX = page.column
  row : top + screen.cursorY = page.row
  cells : ∀ row < 25, ∀ column < 80,
    screen.buffer (row * 80 + column) % 256 = (page.cell (top + row) column).toNat
  blank : ∀ row, last < row → ∀ column, page.cell row column = 32

/-- The position that the cursor registers hold. -/
def Screen.position (screen : Screen) : Nat := screen.registers 0x0E * 256 + screen.registers 0x0F

/-- The screen between two calls. -/
structure Window (screen : Screen) (page : Page) : Prop
    extends Shows screen page page.top page.row where
  columnInside : page.column < 80
  rowInside : screen.cursorY < 25
  hardware : screen.position = screen.cursorY * 80 + screen.cursorX

section

variable {screen : Screen} {page : Page} {top last : Nat} {c : UInt8}

theorem makeVgaentry_low (c : UInt8) (color : Nat) : makeVgaentry c color % 256 = c.toNat := by
  have small := c.toNat_lt
  have high : color <<< 8 % 65536 % 256 = 0 := by
    rw [Nat.shiftLeft_eq]
    omega
  rw [makeVgaentry, show (256 : Nat) = 2 ^ 8 from rfl, Nat.or_mod_two_pow]
  simp only [show (2 : Nat) ^ 8 = 256 from rfl, high, Nat.or_zero]
  split
  · omega
  · omega

theorem tab_eq {column : Nat} (small : column < 80) :
    ((column + 8) &&& 0xFFFFFFF8) % 256 = (column / 8 + 1) * 8 := by
  have rounded : (column + 8) &&& 0xFFFFFFF8 = (column + 8) / 8 * 8 :=
    and_highMask (show column + 8 < 2 ^ (29 + 3) by omega)
  rw [rounded]
  omega

namespace Shows

theorem type (shows : Shows screen page top last) (columnInside : page.column < 80)
    (rowInside : screen.cursorY < 25) (bounded : page.row ≤ last) :
    Shows (typeChar screen c) (page.type c) top last := by
  have same := shows.column
  have height := shows.row
  simp only [typeChar, Page.type]
  split
  · exact ⟨rfl, by simp only; omega, shows.cells, shows.blank⟩
  · split
    · exact ⟨rfl, shows.row, shows.cells, shows.blank⟩
    · split
      · refine ⟨?_, shows.row, shows.cells, shows.blank⟩
        simp only [same]
        exact tab_eq columnInside
      · split
        · split
          · exact ⟨by simp only [same], shows.row, shows.cells, shows.blank⟩
          · exact ⟨by simp only; omega, shows.row, shows.cells, shows.blank⟩
        · refine ⟨by simp only; omega, shows.row, fun row low column inside => ?_, fun row below column => ?_⟩
          · simp only [vgaWidth, same, ← height]
            by_cases here : row = screen.cursorY
            · subst here
              rw [Function.update_self]
              by_cases under : column = page.column
              · subst under
                rw [Function.update_self, Function.update_self]
                exact makeVgaentry_low c screen.color
              · rw [Function.update_of_ne (by omega), Function.update_of_ne under]
                exact shows.cells screen.cursorY low column inside
            · rw [Function.update_of_ne (by omega), Function.update_of_ne (by omega)]
              exact shows.cells row low column inside
          · have apart : row ≠ page.row := by omega
            simp only [Function.update_of_ne apart]
            exact shows.blank row below column

theorem wrap (shows : Shows screen page top last) (small : screen.cursorY < 255) :
    Shows (wrapLine screen) page.wrap top last := by
  have same := shows.column
  have height := shows.row
  simp only [wrapLine, Page.wrap, vgaWidth, same]
  split
  · exact ⟨rfl, by simp only; omega, shows.cells, shows.blank⟩
  · exact shows

theorem setCursor (shows : Shows screen page top last) (later : last ≤ page.row) :
    Shows (screenSetCursor screen screen.cursorX screen.cursorY) page top page.row :=
  ⟨shows.column, shows.row, shows.cells, fun row below => shows.blank row (by omega)⟩

end Shows

/-- One row further down the page, a blank row has come into the window. -/
theorem Shows.scroll (shows : Shows screen page top last) (full : screen.cursorY = 25)
    (bounded : last < page.row) :
    Shows (scrollPage screen) page (top + 1) last := by
  have height := shows.row
  rw [scrollPage, if_pos (by simp [vgaHeight, full])]
  refine ⟨shows.column, by simp only [vgaHeight]; omega, fun row low column inside => ?_, shows.blank⟩
  simp only [screenScroll, vgaHeight, vgaWidth]
  rw [fillCells_apply, copyRows_apply (by decide)]
  by_cases bottom : row = 24
  · subst bottom
    rw [if_pos (by omega), show top + 1 + 24 = page.row by omega, shows.blank page.row bounded]
    exact makeVgaentry_low 32 screen.color
  · rw [if_neg (by omega), if_pos (by omega), show row * 80 + column + 80 = (row + 1) * 80 + column by omega,
      show top + 1 + row = top + (row + 1) by omega]
    exact shows.cells (row + 1) (by omega) column inside

theorem setCursor_buffer {x y : Nat} : (screenSetCursor screen x y).buffer = screen.buffer := by
  simp [screenSetCursor, outb]

theorem position_setCursor {x y : Nat} (column : x < 80) (row : y < 25) :
    (screenSetCursor screen x y).position = y * 80 + x := by
  have low : ∀ value : Nat, value &&& 255 = value % 256 := fun value =>
    Nat.and_two_pow_sub_one_eq_mod value 8
  simp only [screenSetCursor, outb, Screen.position, vgaWidth, low, Nat.shiftRight_eq_div_pow]
  simp
  omega

theorem Page.type_cases (page : Page) (c : UInt8) (inside : page.column < 80) :
    (page.type c).row = page.row ∧ (page.type c).column ≤ 80 ∨
      (page.type c).row = page.row + 1 ∧ (page.type c).column = 0 := by
  simp only [Page.type]
  split_ifs
  · exact .inr ⟨rfl, rfl⟩
  · exact .inl ⟨rfl, by simp⟩
  · exact .inl ⟨rfl, by simp only; omega⟩
  · exact .inl ⟨rfl, by simp only; omega⟩
  · exact .inl ⟨rfl, by simp only; omega⟩

theorem Page.put_cases (page : Page) (c : UInt8) (inside : page.column < 80) :
    page.row ≤ (page.put c).row ∧ (page.put c).row ≤ page.row + 1 ∧ (page.put c).column < 80 := by
  obtain ⟨row, column⟩ | ⟨row, column⟩ := page.type_cases c inside
  · simp only [Page.put, Page.wrap]
    split
    · exact ⟨by simp only; omega, by simp only; omega, by simp⟩
    · exact ⟨by omega, by omega, by omega⟩
  · simp only [Page.put, Page.wrap, column]
    rw [if_neg (by omega)]
    exact ⟨by omega, by omega, by omega⟩

/-- The window of a page whose cursor has moved by at most one row. -/
theorem Shows.settle (shows : Shows screen page (last - 24) last) (later : last ≤ page.row)
    (next : page.row ≤ last + 1) (inside : page.column < 80) :
    Window (screenSetCursor (scrollPage screen) (scrollPage screen).cursorX
      (scrollPage screen).cursorY) page := by
  have height := shows.row
  by_cases full : screen.cursorY = 25
  · have below : last < page.row := by omega
    have scrolled := shows.scroll full below
    have bottom : (scrollPage screen).cursorY = 24 := by
      rw [scrollPage, if_pos (by simp [vgaHeight, full])]
      rfl
    have top : last - 24 + 1 = page.top := by
      rw [Page.top]
      omega
    rw [top] at scrolled
    generalize scrollPage screen = after at scrolled bottom ⊢
    refine ⟨scrolled.setCursor later, inside, ?_, position_setCursor ?_ ?_⟩
    · exact bottom.trans_lt (by decide)
    · exact scrolled.column.trans_lt inside
    · exact bottom.trans_lt (by decide)
  · have stays : scrollPage screen = screen := by
      rw [scrollPage, if_neg (by simp only [vgaHeight]; omega)]
    have top : last - 24 = page.top := by
      rw [Page.top]
      omega
    rw [stays]
    rw [top] at shows
    refine ⟨shows.setCursor later, inside, ?_, position_setCursor ?_ ?_⟩
    · show screen.cursorY < 25
      omega
    · exact shows.column.trans_lt inside
    · omega

theorem decDigits_eq (n : Nat) :
    decDigits n = (Nat.digits 10 n).map fun digit => UInt8.ofNat (48 + digit) := by
  induction n using Nat.strong_induction_on with
  | _ n ih =>
      rw [decDigits]
      by_cases zero : n = 0
      · simp [zero]
      · have digits : Nat.digits 10 n = n % 10 :: Nat.digits 10 (n / 10) :=
          Nat.digits_def' (by decide) (by omega)
        rw [if_neg zero, ih (n / 10) (by omega), digits, List.map_cons]

theorem hexDigits_eq (n : Nat) :
    [28, 24, 20, 16, 12, 8, 4, 0].map (fun shift => hexDigit (n >>> shift &&& 0xF)) =
      (List.range 8).map fun place => hexDigit (n / 16 ^ (7 - place) % 16) := by
  have low : ∀ value : Nat, value &&& 15 = value % 16 := fun value =>
    Nat.and_two_pow_sub_one_eq_mod value 4
  simp only [Nat.shiftRight_eq_div_pow, low]
  rfl

/-- Every call but `screen_setcolor` puts characters one by one. -/
theorem step_text (screen : Screen) {event : Event} (text : ∀ fg bg, event ≠ .setcolor fg bg) :
    step screen event = (characters event).foldl screenPutchar screen := by
  cases event with
  | setcolor fg bg => exact absurd rfl (text fg bg)
  | putchar c => rfl
  | putstr str => rfl
  | putdec n =>
      simp only [step, screenPutdec, characters, decimal]
      split
      · rfl
      · rw [decDigits_eq]
  | puthex n =>
      simp only [characters, hexadecimal, ← hexDigits_eq]
      rw [List.foldl_cons, List.foldl_cons, List.foldl_map]
      rfl

namespace Window

theorem put (window : Window screen page) (c : UInt8) :
    Window (screenPutchar screen c) (page.put c) := by
  have height := window.row
  obtain ⟨later, next, column⟩ := page.put_cases c window.columnInside
  have typed := window.toShows.type (c := c) window.columnInside window.rowInside le_rfl
  have typedRow := typed.row
  have small : (typeChar screen c).cursorY < 255 := by
    have rowInside := window.rowInside
    obtain ⟨row, _⟩ | ⟨row, _⟩ := page.type_cases c window.columnInside
    · omega
    · omega
  have settled := (typed.wrap small).settle later next column
  rw [screenPutchar]
  exact settled

theorem puts (window : Window screen page) (text : List UInt8) :
    Window (text.foldl screenPutchar screen) (text.foldl Page.put page) := by
  induction text generalizing screen page with
  | nil => exact window
  | cons c rest ih => exact ih (window.put c)

theorem init (screen : Screen) : Window (screenInit screen) .blank := by
  refine ⟨⟨rfl, rfl, fun row low column inside => ?_, fun _ _ _ => rfl⟩, by decide,
    Nat.zero_lt_succ 24, position_setCursor (by decide) (by decide)⟩
  have cleared : (screenInit screen).buffer =
      fillCells (makeVgaentry 32 (makeColor 7 0)) 0 (vgaWidth * vgaHeight) screen.buffer := by
    simp only [screenInit, screenClear, setCursor_buffer, screenSetcolor]
  rw [cleared, fillCells_apply, if_pos (by simp only [vgaWidth, vgaHeight]; omega)]
  exact makeVgaentry_low 32 _

theorem setcolor (window : Window screen page) (fg bg : UInt8) :
    Window (screenSetcolor screen fg bg) page :=
  ⟨⟨window.column, window.row, window.cells, window.blank⟩, window.columnInside, window.rowInside,
    window.hardware⟩

theorem step (window : Window screen page) (event : Event) :
    Window (step screen event) ((characters event).foldl Page.put page) := by
  cases event with
  | setcolor fg bg => exact window.setcolor fg bg
  | putchar c => exact window.put c
  | putstr str => exact window.puts str.val
  | putdec n =>
      rw [step_text screen (by simp)]
      exact window.puts _
  | puthex n =>
      rw [step_text screen (by simp)]
      exact window.puts _

theorem run (window : Window screen page) (events : List Event) :
    Window (events.foldl Terminal.step screen) ((events.flatMap characters).foldl Page.put page) := by
  induction events generalizing screen page with
  | nil => exact window
  | cons event rest ih =>
      rw [List.flatMap_cons, List.foldl_append]
      exact ih (window.step event)

end Window

end

/-- After any calls the screen is the window on the page on which their characters
were written, and the hardware cursor is the page's cursor in that window. -/
theorem screen_shows_page (screen : Screen) (events : List Event) :
    let after := events.foldl step (screenInit screen)
    let page := (events.flatMap characters).foldl Page.put .blank
    (∀ row < 25, ∀ column < 80, after.buffer (row * 80 + column) % 256 =
        (page.cell (page.top + row) column).toNat) ∧
      page.top ≤ page.row ∧ page.row < page.top + 25 ∧ page.column < 80 ∧
      after.position = (page.row - page.top) * 80 + page.column := by
  have window := (Window.init screen).run events
  have height := window.row
  have inside := window.rowInside
  refine ⟨window.cells, Nat.sub_le _ _, by omega, window.columnInside, ?_⟩
  rw [window.hardware, window.toShows.column, ← height, Nat.add_sub_cancel_left]

end Helios.Terminal
