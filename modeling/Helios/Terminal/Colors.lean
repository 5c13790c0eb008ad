import Helios.Terminal.Bounds

namespace Helios.Terminal

open Helios.Data Helios.Strings

/-! The attribute bytes of the screen.

Beside the screen runs a record of what was written to each cell last, and in
which color; the record moves with the cells when the screen scrolls. -/

structure Stamp where
  char : UInt8
  color : Nat

namespace Stamp

/-- The cell that `screen_putchar` writes for a character in a color. -/
def entry (stamp : Stamp) : Nat := makeVgaentry stamp.char stamp.color

/-- `make_vgaentry` keeps the color: the sign of the character does not reach it,
or it has every bit set anyway. -/
def Plain (stamp : Stamp) : Prop := stamp.char < 128 ∨ stamp.color = 255

end Stamp

structure Painted where
  screen : Screen
  stamps : Nat → Stamp

/-- What `screen_putchar` does not take for a control character. -/
def Ordinary (c : UInt8) : Prop := c ≠ 10 ∧ c ≠ 13 ∧ c ≠ 9 ∧ c ≠ 8

instance (c : UInt8) : Decidable (Ordinary c) := inferInstanceAs (Decidable (_ ∧ _))

/-- The record once the screen has been scrolled in a color. -/
def scrollStamps (color : Nat) (stamps : Nat → Stamp) : Nat → Stamp :=
  fillCells ⟨32, color⟩ ((vgaHeight - 1) * vgaWidth) vgaWidth
    (copyRows vgaWidth (vgaHeight - 1) stamps)

namespace Painted

def type (painted : Painted) (c : UInt8) : Painted where
  screen := typeChar painted.screen c
  stamps :=
    if Ordinary c then
      Function.update painted.stamps
        (painted.screen.cursorY * vgaWidth + painted.screen.cursorX) ⟨c, painted.screen.color⟩
    else painted.stamps

def scroll (painted : Painted) : Painted :=
  ⟨screenScroll painted.screen, scrollStamps painted.screen.color painted.stamps⟩

/-- A character, with the record scrolled where the screen is. -/
def put (painted : Painted) (c : UInt8) : Painted where
  screen := screenPutchar painted.screen c
  stamps :=
    if (wrapLine (typeChar painted.screen c)).cursorY ≥ vgaHeight then
      scrollStamps painted.screen.color (painted.type c).stamps
    else (painted.type c).stamps

def clear (painted : Painted) : Painted where
  screen := screenClear painted.screen
  stamps := fillCells ⟨32, painted.screen.color⟩ 0 (vgaWidth * vgaHeight) painted.stamps

/-- A call, with the record of what it writes. -/
def call (painted : Painted) : Call → Painted
  | .write (.setcolor fg bg) => { painted with screen := screenSetcolor painted.screen fg bg }
  | .write event => (characters event).foldl put painted
  | .clear => painted.clear
  | .scroll => painted.scroll

/-- The screen after `screen_init`, which clears every cell. -/
def init (screen : Screen) : Painted :=
  clear ⟨screenSetcolor screen 7 0, fun _ => ⟨32, 7⟩⟩

end Painted

/-- Every cell of the screen holds what its record says. -/
structure Stamped (painted : Painted) : Prop where
  cells : ∀ cell < 2000, painted.screen.buffer cell = (painted.stamps cell).entry
  colors : ∀ cell < 2000, (painted.stamps cell).color < 256
  color : painted.screen.color < 256

section

variable {painted : Painted} {screen : Screen} {c : UInt8} {color : Nat}

/-- The high byte of a cell: a character from 128 on is extended with its sign. -/
theorem makeVgaentry_high (c : UInt8) (small : color < 256) :
    makeVgaentry c color / 256 = if c < 128 then color else 255 := by
  have width := c.toNat_lt
  have shifted : color <<< 8 % 65536 = color <<< 8 := by
    rw [Nat.shiftLeft_eq]
    exact Nat.mod_eq_of_lt (by omega)
  have ascii : c.toNat < 128 ↔ c < 128 := (@UInt8.lt_iff_toNat_lt c 128).symm
  have split (value : Nat) : (value ||| color <<< 8) / 256 = value / 256 ||| color := by
    rw [← Nat.shiftRight_eq_div_pow _ 8, Nat.shiftRight_or_distrib, Nat.shiftLeft_shiftRight,
      Nat.shiftRight_eq_div_pow]
  rw [makeVgaentry, shifted, split]
  by_cases low : c.toNat < 128
  · rw [if_pos low, if_pos (ascii.mp low), Nat.div_eq_of_lt (by omega), Nat.zero_or]
  · rw [if_neg low, if_neg (mt ascii.mpr low), show (c.toNat + 0xFF00) / 256 = 255 by omega]
    exact (show ∀ color < 256, 255 ||| color = 255 by decide +kernel) color small

theorem attribute_iff {cell : Nat} (stamped : Stamped painted) (inside : cell < 2000) :
    painted.screen.buffer cell / 256 = (painted.stamps cell).color ↔
      (painted.stamps cell).Plain := by
  rw [stamped.cells cell inside, Stamp.entry, makeVgaentry_high _ (stamped.colors cell inside),
    Stamp.Plain]
  split_ifs with ascii
  · simp [ascii]
  · simp [ascii, eq_comm]

namespace Painted

theorem text_screen (painted : Painted) (text : List UInt8) :
    (text.foldl put painted).screen = text.foldl screenPutchar painted.screen :=
  (List.foldl_hom Painted.screen fun _ _ => rfl).symm

theorem call_screen (painted : Painted) (made : Call) :
    (painted.call made).screen = Terminal.call painted.screen made := by
  cases made with
  | clear => rfl
  | scroll => rfl
  | write event =>
      cases event with
      | setcolor fg bg => rfl
      | putchar c => rfl
      | putstr str => exact text_screen painted _
      | putdec n =>
          exact (text_screen painted _).trans (step_text painted.screen (by simp)).symm
      | puthex n =>
          exact (text_screen painted _).trans (step_text painted.screen (by simp)).symm

end Painted

theorem setCursor_color {x y : Nat} : (screenSetCursor screen x y).color = screen.color := by
  simp [screenSetCursor, outb]

theorem wrapLine_kept : (wrapLine screen).buffer = screen.buffer ∧
    (wrapLine screen).color = screen.color := by
  unfold wrapLine
  split_ifs <;> exact ⟨rfl, rfl⟩

theorem typeChar_color : (typeChar screen c).color = screen.color := by
  unfold typeChar
  split_ifs <;> rfl

theorem putchar_color : (screenPutchar screen c).color = screen.color := by
  have scrolled (screen : Screen) : (scrollPage screen).color = screen.color := by
    unfold scrollPage
    split_ifs <;> rfl
  simp only [screenPutchar, setCursor_color, scrolled, wrapLine_kept.2, typeChar_color]

namespace Stamped

/-- Cursors and registers do not matter. -/
theorem congr {other : Painted} (stamped : Stamped painted)
    (buffer : other.screen.buffer = painted.screen.buffer)
    (color : other.screen.color = painted.screen.color) (stamps : other.stamps = painted.stamps) :
    Stamped other := by
  refine ⟨fun cell inside => ?_, fun cell inside => ?_, color.trans_lt stamped.color⟩
  · rw [buffer, stamps]
    exact stamped.cells cell inside
  · rw [stamps]
    exact stamped.colors cell inside

theorem scroll (stamped : Stamped painted) : Stamped painted.scroll := by
  have moved (cell : Nat) (inside : cell < 2000) :
      painted.scroll.screen.buffer cell = (painted.scroll.stamps cell).entry ∧
        (painted.scroll.stamps cell).color < 256 := by
    simp only [Painted.scroll, screenScroll, scrollStamps, vgaHeight, vgaWidth]
    rw [fillCells_apply, fillCells_apply, copyRows_apply (by decide), copyRows_apply (by decide)]
    by_cases bottom : 24 * 80 ≤ cell
    · rw [if_pos (by omega), if_pos (by omega)]
      exact ⟨rfl, stamped.color⟩
    · rw [if_neg (by omega), if_pos (by omega), if_neg (by omega), if_pos (by omega)]
      exact ⟨stamped.cells _ (by omega), stamped.colors _ (by omega)⟩
  exact ⟨fun cell inside => (moved cell inside).1, fun cell inside => (moved cell inside).2,
    stamped.color⟩

theorem cleared (small : painted.screen.color < 256) : Stamped painted.clear := by
  have blank (cell : Nat) (inside : cell < 2000) :
      painted.clear.screen.buffer cell = (painted.clear.stamps cell).entry ∧
        (painted.clear.stamps cell).color < 256 := by
    simp only [Painted.clear, screenClear, setCursor_buffer, vgaHeight, vgaWidth]
    rw [fillCells_apply, fillCells_apply, if_pos (by omega), if_pos (by omega)]
    exact ⟨rfl, small⟩
  refine ⟨fun cell inside => (blank cell inside).1, fun cell inside => (blank cell inside).2, ?_⟩
  rw [Painted.clear, screenClear, setCursor_color]
  exact small

theorem type (stamped : Stamped painted) (c : UInt8) : Stamped (painted.type c) := by
  by_cases ordinary : Ordinary c
  · obtain ⟨newline, back, tab, erase⟩ := ordinary
    have typed (cell : Nat) (inside : cell < 2000) :
        (painted.type c).screen.buffer cell = ((painted.type c).stamps cell).entry ∧
          ((painted.type c).stamps cell).color < 256 := by
      simp only [Painted.type, typeChar, Ordinary, newline, back, tab, erase, if_false, ne_eq,
        not_false_eq_true, and_self, if_true]
      by_cases here : cell = painted.screen.cursorY * vgaWidth + painted.screen.cursorX
      · rw [here, Function.update_self, Function.update_self]
        exact ⟨rfl, stamped.color⟩
      · rw [Function.update_of_ne here, Function.update_of_ne here]
        exact ⟨stamped.cells cell inside, stamped.colors cell inside⟩
    exact ⟨fun cell inside => (typed cell inside).1, fun cell inside => (typed cell inside).2,
      typeChar_color.trans_lt stamped.color⟩
  · refine stamped.congr ?_ typeChar_color (if_neg ordinary)
    simp only [Painted.type, typeChar]
    split_ifs with newline back tab erase
    all_goals first | rfl | exact absurd ⟨newline, back, tab, erase⟩ ordinary

theorem put (stamped : Stamped painted) (c : UInt8) : Stamped (painted.put c) := by
  have typed := stamped.type c
  have wrapped : Stamped ⟨wrapLine (typeChar painted.screen c), (painted.type c).stamps⟩ :=
    typed.congr wrapLine_kept.1 wrapLine_kept.2 rfl
  have color : (wrapLine (typeChar painted.screen c)).color = painted.screen.color :=
    wrapLine_kept.2.trans typeChar_color
  have shown : (painted.put c).screen = screenSetCursor
      (scrollPage (wrapLine (typeChar painted.screen c)))
      (scrollPage (wrapLine (typeChar painted.screen c))).cursorX
      (scrollPage (wrapLine (typeChar painted.screen c))).cursorY := rfl
  by_cases full : (wrapLine (typeChar painted.screen c)).cursorY ≥ vgaHeight
  · refine wrapped.scroll.congr ?_ ?_ ?_
    · rw [shown, setCursor_buffer, scrollPage, if_pos full]
      rfl
    · rw [shown, setCursor_color, scrollPage, if_pos full]
      rfl
    · rw [Painted.put, if_pos full, Painted.scroll, color]
  · refine wrapped.congr ?_ ?_ (if_neg full)
    · rw [shown, setCursor_buffer, scrollPage, if_neg full]
    · rw [shown, setCursor_color, scrollPage, if_neg full]

theorem text (stamped : Stamped painted) (bytes : List UInt8) :
    Stamped (bytes.foldl Painted.put painted) := by
  induction bytes generalizing painted with
  | nil => exact stamped
  | cons c rest ih => exact ih (stamped.put c)

theorem init (screen : Screen) : Stamped (Painted.init screen) := cleared (by decide : 7 < 256)

theorem call (stamped : Stamped painted) (made : Call) : Stamped (painted.call made) := by
  cases made with
  | clear => exact cleared stamped.color
  | scroll => exact stamped.scroll
  | write event =>
      cases event with
      | setcolor fg bg => exact ⟨stamped.cells, stamped.colors, Nat.mod_lt _ (by decide)⟩
      | putchar c => exact stamped.text _
      | putstr str => exact stamped.text _
      | putdec n => exact stamped.text _
      | puthex n => exact stamped.text _

theorem run (stamped : Stamped painted) (calls : List Call) :
    Stamped (calls.foldl Painted.call painted) := by
  induction calls generalizing painted with
  | nil => exact stamped
  | cons made rest ih => exact ih (stamped.call made)

end Stamped

/-- No cell was written with a character that spoils its color. -/
def AllPlain (painted : Painted) : Prop := ∀ cell < 2000, (painted.stamps cell).Plain

/-- What a call writes is ASCII, or the color has every bit set. -/
def KeepsColor (screen : Screen) : Call → Prop
  | .write event => ∀ c ∈ characters event, c < 128 ∨ screen.color = 255
  | .clear | .scroll => True

theorem scrollStamps_plain {stamps : Nat → Stamp} (plain : ∀ cell < 2000, (stamps cell).Plain) :
    ∀ cell < 2000, (scrollStamps color stamps cell).Plain := by
  intro cell inside
  simp only [scrollStamps, vgaHeight, vgaWidth]
  rw [fillCells_apply, copyRows_apply (by decide)]
  by_cases bottom : 24 * 80 ≤ cell
  · rw [if_pos (by omega)]
    exact .inl (by decide : (32 : UInt8) < 128)
  · rw [if_neg (by omega), if_pos (by omega)]
    exact plain _ (by omega)

namespace AllPlain

theorem put (plain : AllPlain painted) (keeps : c < 128 ∨ painted.screen.color = 255) :
    AllPlain (painted.put c) := by
  have typed : ∀ cell < 2000, ((painted.type c).stamps cell).Plain := by
    intro cell inside
    simp only [Painted.type]
    split_ifs with ordinary
    · by_cases here : cell = painted.screen.cursorY * vgaWidth + painted.screen.cursorX
      · rw [here, Function.update_self]
        exact keeps
      · rw [Function.update_of_ne here]
        exact plain cell inside
    · exact plain cell inside
  unfold Painted.put AllPlain
  split_ifs
  · exact scrollStamps_plain typed
  · exact typed

theorem text (plain : AllPlain painted) {bytes : List UInt8}
    (keeps : ∀ c ∈ bytes, c < 128 ∨ painted.screen.color = 255) :
    AllPlain (bytes.foldl Painted.put painted) := by
  induction bytes generalizing painted with
  | nil => exact plain
  | cons c rest ih =>
      refine ih (plain.put (keeps c (by simp))) fun other member => ?_
      rw [show (painted.put c).screen.color = painted.screen.color from putchar_color]
      exact keeps other (by simp [member])

theorem cleared : AllPlain painted.clear := by
  intro cell inside
  simp only [Painted.clear, vgaHeight, vgaWidth]
  rw [fillCells_apply, if_pos (by omega)]
  exact .inl (by decide : (32 : UInt8) < 128)

theorem call (plain : AllPlain painted) {made : Call} (keeps : KeepsColor painted.screen made) :
    AllPlain (painted.call made) := by
  cases made with
  | clear => exact cleared
  | scroll => exact scrollStamps_plain plain
  | write event =>
      cases event with
      | setcolor fg bg => exact plain
      | putchar c => exact plain.text keeps
      | putstr str => exact plain.text keeps
      | putdec n => exact plain.text keeps
      | puthex n => exact plain.text keeps

theorem run (plain : AllPlain painted) {calls : List Call}
    (keeps : Along (fun screen made => some (Terminal.call screen made)) KeepsColor painted.screen
      calls) : AllPlain (calls.foldl Painted.call painted) := by
  induction calls generalizing painted with
  | nil => exact plain
  | cons made rest ih =>
      refine ih (plain.call keeps.1) ?_
      rw [painted.call_screen]
      exact keeps.2 _ rfl

end AllPlain

/-- After any calls the attributes on the screen are the colors of the cells, as
they were when each was written or blanked, if and only if no cell was written
last with a character from 128 on in a color other than 255; and so they are
after calls that write such characters in that color only. -/
theorem attributes_are_colors_iff (screen : Screen) (calls : List Call) :
    let final := calls.foldl Painted.call (Painted.init screen)
    final.screen = calls.foldl call (screenInit screen) ∧
      ((∀ cell < 2000, final.screen.buffer cell / 256 = (final.stamps cell).color) ↔
        ∀ cell < 2000, (final.stamps cell).char < 128 ∨ (final.stamps cell).color = 255) ∧
      (Along (fun screen made => some (call screen made)) KeepsColor (screenInit screen) calls →
        ∀ cell < 2000, final.screen.buffer cell / 256 = (final.stamps cell).color) := by
  have stamped := (Stamped.init screen).run calls
  refine ⟨?_, forall₂_congr fun cell inside => attribute_iff stamped inside,
    fun keeps cell inside => ?_⟩
  · exact (List.foldl_hom Painted.screen fun painted made => (painted.call_screen made).symm).symm
  · have blank : AllPlain (Painted.init screen) := AllPlain.cleared
    exact (attribute_iff stamped inside).mpr (blank.run keeps cell inside)

/-- In the first color of the screen, character 128 gets the attribute 255. -/
theorem attribute_of_signed_char :
    let screen : Screen := ⟨fun _ => 0, 0, 0, 0, 0, fun _ => 0⟩
    let final := [Call.write (.putstr ⟨[128], by decide⟩)].foldl Painted.call (Painted.init screen)
    (final.stamps 0).color = 7 ∧ final.screen.buffer 0 / 256 = 255 := by
  intro screen final
  have stamped : Stamped final := (Stamped.init screen).run _
  have here : final.stamps 0 = ⟨128, 7⟩ := by
    have stays : ¬ (wrapLine (typeChar (Painted.init screen).screen 128)).cursorY ≥ vgaHeight := by
      decide
    have written : final.stamps = ((Painted.init screen).type 128).stamps := by
      show ((Painted.init screen).put 128).stamps = _
      rw [Painted.put, if_neg stays]
    have typed : ((Painted.init screen).type 128).stamps =
        Function.update (Painted.init screen).stamps 0 ⟨128, 7⟩ := by
      have ordinary : Ordinary 128 := by decide
      rw [Painted.type, if_pos ordinary]
      rfl
    rw [written, typed, Function.update_self]
  rw [stamped.cells 0 (by decide), here]
  exact ⟨rfl, makeVgaentry_high 128 (by decide)⟩

end

end Helios.Terminal
