import Helios.Console.Model

namespace Helios.Console

open Helios.Data Helios.Syscall

/-! The commands against the line editor.

`sys_read` is asked for one character at a time, so its own backspace finds an
empty buffer, and it never returns the characters that the input loop would take
for one: the backspace key removes nothing. -/

/-- The line that the keys before Enter edit, as long as the buffer takes it. -/
def editedLine (keys : List Nat) : List UInt8 := (keys.foldl edit []).take 126

/-- The lines that the first `count` Enters end, with the keys behind them. -/
def enteredLines : Nat → List Nat → Option (List (List UInt8) × List Nat)
  | 0, keys => some ([], keys)
  | count + 1, keys =>
      if 0x1C ∈ keys then
        (enteredLines count (keys.dropWhile (· ≠ 0x1C)).tail).map fun entered =>
          (editedLine (keys.takeWhile (· ≠ 0x1C)) :: entered.1, entered.2)
      else none

/-- No backspace key of the line has a character to remove. -/
def Uncorrected (line : List Nat) : Prop :=
  ∀ front back, line = front ++ 0x0E :: back → front.foldl edit [] = []

/-- The line begins with the characters typed first, as far as the buffer goes. -/
def Unchanged (line : List Nat) : Prop :=
  Uncorrected line ∨
    126 ≤ (line.foldl edit []).length ∧
      (line.foldl edit []).take 126 = (line.filterMap decode).take 126

/-- The input loop holds the characters typed, as far as the buffer goes. -/
structure Typed (frame : Frame) (input : Input) (typed : List UInt8) : Prop where
  pos : input.pos = min typed.length 126
  bytes : input.memory.bytes frame.cmd input.pos = typed.take 126

section

variable {execve : Syscall.Console → Syscall.Console × Int} {behind c : UInt8} {frame : Frame}
variable {console : Syscall.Console} {input : Input} {typed : List UInt8} {key count : Nat}
variable {keys line before after : List Nat}

theorem filterMap_concat :
    (line ++ [key]).filterMap decode = line.filterMap decode ++ (decode key).toList := by
  rw [List.filterMap_append, List.filterMap_cons]
  cases decode key with
  | none => rfl
  | some c => rfl

theorem edited_length : (line.foldl edit []).length ≤ (line.filterMap decode).length := by
  induction line using List.reverseRecOn with
  | nil => exact le_rfl
  | append_singleton line key ih =>
      rw [List.foldl_concat, filterMap_concat, edit]
      by_cases back : key = 0x0E
      · rw [if_pos back, List.length_dropLast, List.length_append]
        omega
      · rw [if_neg back, List.length_append, List.length_append]
        omega

theorem uncorrected_concat :
    Uncorrected (line ++ [key]) ↔ Uncorrected line ∧ (key = 0x0E → line.foldl edit [] = []) := by
  constructor
  · intro uncorrected
    refine ⟨fun front back split => ?_, ?_⟩
    · exact uncorrected front (back ++ [key]) (by rw [split, List.append_assoc, List.cons_append])
    · rintro rfl
      exact uncorrected line [] rfl
  · rintro ⟨uncorrected, last⟩ front back split
    rcases back.eq_nil_or_concat' with rfl | ⟨back, final, rfl⟩
    · obtain ⟨rfl, same⟩ := List.append_inj' split rfl
      exact last (List.singleton_inj.mp same)
    · rw [← List.cons_append, ← List.append_assoc] at split
      exact uncorrected front back (List.append_inj' split rfl).1

/-- Without a correction, and only then, the line has every character typed. -/
theorem edited_eq_iff : line.foldl edit [] = line.filterMap decode ↔ Uncorrected line := by
  induction line using List.reverseRecOn with
  | nil =>
      refine ⟨fun _ front back split => ?_, fun _ => rfl⟩
      simp at split
  | append_singleton line key ih =>
      rw [uncorrected_concat, ← ih, List.foldl_concat, filterMap_concat, edit]
      by_cases back : key = 0x0E
      · have silent : (decode key).toList = [] := by
          rw [back]
          rfl
        rw [if_pos back, silent, List.append_nil]
        constructor
        · intro same
          have shorter := @edited_length line
          rw [← same, List.length_dropLast] at shorter
          have empty : line.foldl edit [] = [] := List.eq_nil_of_length_eq_zero (by omega)
          rw [empty] at same ⊢
          exact ⟨same, fun _ => rfl⟩
        · rintro ⟨same, empty⟩
          rw [← same, empty back]
          rfl
      · rw [if_neg back, List.append_cancel_right_eq]
        simp [back]

theorem unchanged_iff : (line.filterMap decode).take 126 = editedLine line ↔ Unchanged line := by
  rw [Unchanged, ← edited_eq_iff, editedLine, eq_comm]
  constructor
  · intro same
    by_cases long : 126 ≤ (line.foldl edit []).length
    · exact .inr ⟨long, same⟩
    · have short : (line.filterMap decode).length ≤ 126 := by
        have lengths := congrArg List.length same
        simp only [List.length_take] at lengths
        omega
      rw [List.take_of_length_le (by omega), List.take_of_length_le short] at same
      exact .inl same
  · rintro (same | ⟨_, same⟩)
    · rw [same]
    · exact same

theorem heard_mapped (mapped : key ≠ 0x1B) : heard behind key = decode key := if_neg mapped

theorem heard_newline (mapped : key ≠ 0x1B) (enter : key ≠ 0x1C) :
    heard behind key ≠ some 10 := by
  rw [heard_mapped mapped]
  intro newline
  rcases decode_printable newline with ⟨same, _⟩ | ⟨_, printable⟩
  · exact enter same
  · exact absurd printable (by decide)

theorem heard_others (small : ∀ key ∈ keys, key < 256) (mapped : 0x1B ∉ keys)
    (enter : 0x1C ∉ keys) : ∀ key ∈ keys, heard behind (key % 256) ≠ some 10 := by
  intro key member
  rw [Nat.mod_eq_of_lt (small key member)]
  exact heard_newline (ne_of_mem_of_not_mem member mapped) (ne_of_mem_of_not_mem member enter)

theorem Typed.prompt : Typed frame (prompt frame console) [] := ⟨rfl, rfl⟩

/-- A printable character is stored while there is room. -/
theorem Typed.take (holds : Typed frame input typed) (printable : 32 ≤ c ∧ c < 127) :
    Typed frame (takeChar frame (echo frame input c) c).1 (typed ++ [c]) := by
  have position := holds.pos
  have apart := frame.apart
  have kept : (input.memory.store8 frame.c c).bytes frame.cmd input.pos = typed.take 126 :=
    (Memory.bytes_congr fun index small => Memory.store8_other (by omega)).trans holds.bytes
  rw [takeChar_printable printable]
  by_cases room : input.pos < 126
  · have short : typed.length = input.pos := by omega
    rw [if_pos (show (echo frame input c).pos < 126 from room)]
    refine ⟨?_, ?_⟩
    · show input.pos + 1 = _
      rw [List.length_append, List.length_singleton]
      omega
    · show ((input.memory.store8 frame.c c).store8 (frame.cmd + input.pos) c).bytes frame.cmd
        (input.pos + 1) = _
      rw [Memory.bytes_succ, Memory.store8_same,
        Memory.bytes_congr fun index small => Memory.store8_other (by omega), kept,
        List.take_of_length_le (by omega), List.take_of_length_le (by simp; omega)]
  · rw [if_neg (show ¬ (echo frame input c).pos < 126 from room)]
    refine ⟨?_, ?_⟩
    · show input.pos = _
      rw [List.length_append]
      omega
    · rw [List.take_append_of_le_length (by omega)]
      exact kept

theorem Typed.strike (holds : Typed frame input typed) (small : key < 256)
    (mapped : key ≠ 0x1B) (enter : key ≠ 0x1C) :
    Typed frame (strike behind frame input key) (typed ++ (decode key).toList) := by
  rw [Console.strike, Nat.mod_eq_of_lt small, heard_mapped mapped]
  cases decoded : decode key with
  | none => simpa using holds
  | some c =>
      rcases decode_printable decoded with ⟨same, _⟩ | ⟨_, printable⟩
      · exact absurd same enter
      · exact holds.take printable

theorem Typed.run (holds : Typed frame input typed) (small : ∀ key ∈ keys, key < 256)
    (mapped : 0x1B ∉ keys) (enter : 0x1C ∉ keys) :
    Typed frame (keys.foldl (Console.strike behind frame) input)
      (typed ++ keys.filterMap decode) := by
  induction keys generalizing input typed with
  | nil => simpa using holds
  | cons key rest ih =>
      have next : Typed frame (Console.strike behind frame input key)
          (typed ++ (decode key).toList) :=
        holds.strike (small key (by simp)) (fun same => mapped (by simp [same]))
          fun same => enter (by simp [same])
      have later := ih next (fun other member => small other (by simp [member]))
        (fun member => mapped (by simp [member])) fun member => enter (by simp [member])
      rw [List.append_assoc] at later
      rw [List.foldl_cons, List.filterMap_cons]
      cases decoded : decode key with
      | none => simpa [decoded] using later
      | some c => simpa [decoded] using later

/-- Enter terminates the string behind the characters held. -/
theorem Typed.enter (holds : Typed frame input typed) (nonzero : ∀ byte ∈ typed, byte ≠ 0) :
    command frame (takeChar frame (echo frame input 10) 10).1.toConsole =
      some (typed.take 126) := by
  have position := holds.pos
  have apart := frame.apart
  let memory := (input.memory.store8 frame.c 10).store8 (frame.cmd + input.pos) 0
  have kept : memory.bytes frame.cmd input.pos = typed.take 126 := by
    rw [← holds.bytes]
    exact Memory.bytes_congr fun index small =>
      (Memory.store8_other (by omega)).trans (Memory.store8_other (by omega))
  have text : memory.text frame.cmd 128 = typed.take 126 := by
    rw [← kept]
    refine Memory.text_eq_bytes (fun byte member => ?_) Memory.store8_same (by omega)
    rw [kept] at member
    exact nonzero byte (List.mem_of_mem_take member)
  have short : (typed.take 126).length < 128 := by
    rw [List.length_take]
    omega
  show (if (memory.text frame.cmd 128).length < 128 then some (memory.text frame.cmd 128)
    else none) = _
  rw [text, if_pos short]

theorem readCommand_enters (small : ∀ key ∈ before, key < 256) (mapped : 0x1B ∉ before)
    (enter : 0x1C ∉ before) : ∃ final,
      (readCommand behind frame console (before ++ 0x1C :: after)).result = some (final, after) ∧
      command frame final = some ((before.filterMap decode).take 126) := by
  have typed : Typed frame (before.foldl (strike behind frame) (prompt frame console))
      (before.filterMap decode) := by
    simpa using Typed.prompt.run small mapped enter
  refine ⟨_, readCommand_newline (heard_others small mapped enter) rfl,
    typed.enter fun byte member => ?_⟩
  obtain ⟨key, _, decoded⟩ := List.mem_filterMap.mp member
  exact decode_nonzero decoded

theorem readCommand_waits (small : ∀ key ∈ keys, key < 256) (mapped : 0x1B ∉ keys)
    (enter : 0x1C ∉ keys) : (readCommand behind frame console keys).result = none := by
  rw [readCommand, Port.bind_waiting (loop_waits (heard_others small mapped enter))]

theorem rounds_succ {final : Syscall.Console} {left : List Nat}
    (finished : (readCommand behind frame console keys).result = some (final, left)) :
    (rounds execve behind frame (count + 1) console keys).result =
      (rounds execve behind frame count (dispatch execve frame final) left).result.map
        fun later => (command frame final :: later.1, later.2) := by
  rw [rounds, Port.bind_finished finished]
  cases result : (rounds execve behind frame count (dispatch execve frame final) left).result with
  | none => exact congrArg Trace.result (Port.bind_waiting result)
  | some later => exact congrArg Trace.result (Port.bind_finished result)

/-- With a newline behind the literal, the key `0x1B` ends a round. -/
theorem rounds_bracket (small : ∀ key ∈ line, key < 256) (bracket : 0x1B ∈ line)
    (enter : 0x1C ∉ line) : ∃ commands back,
      (rounds execve 10 frame 1 console (line ++ after)).result = some (commands, back ++ after) := by
  obtain ⟨front, back, rfl, mapped⟩ := List.eq_append_cons_of_mem bracket
  have others : ∀ key ∈ front, heard 10 (key % 256) ≠ some 10 :=
    heard_others (fun key member => small key (by simp [member])) mapped
      fun member => enter (by simp [member])
  have finished := @readCommand_newline 10 frame console 0x1B front (back ++ after) others rfl
  rw [List.append_assoc, List.cons_append, rounds_succ finished]
  exact ⟨_, back, rfl⟩

theorem enteredLines_enter (enter : 0x1C ∉ before) :
    enteredLines (count + 1) (before ++ 0x1C :: after) =
      (enteredLines count after).map fun entered =>
        (editedLine before :: entered.1, entered.2) := by
  have others : ∀ key ∈ before, decide (key ≠ 0x1C) = true := fun key member =>
    decide_eq_true (ne_of_mem_of_not_mem member enter)
  rw [enteredLines, if_pos (by simp), List.takeWhile_append_of_pos others,
    List.dropWhile_append_of_pos others]
  simp

theorem enteredLines_none (enter : 0x1C ∉ keys) : enteredLines (count + 1) keys = none :=
  if_neg enter

theorem splitOn_enter (enter : 0x1C ∉ before) :
    ((before ++ 0x1C :: after).splitOn 0x1C).dropLast =
      before :: (after.splitOn 0x1C).dropLast := by
  rw [List.splitOn_append_cons_self_of_not_mem enter,
    List.dropLast_cons_of_ne_nil (List.splitOn_ne_nil _ _)]

/-- The rounds hand over the lines of the editor. -/
theorem rounds_edited (small : ∀ key ∈ keys, key < 256) (mapped : 0x1B ∉ keys)
    (unchanged : ∀ line ∈ (keys.splitOn 0x1C).dropLast, Unchanged line) :
    (rounds execve behind frame count console keys).result =
      (enteredLines count keys).map fun entered => (entered.1.map some, entered.2) := by
  induction count generalizing keys console with
  | zero => rfl
  | succ count ih =>
      by_cases entered : 0x1C ∈ keys
      · obtain ⟨before, after, rfl, enter⟩ := List.eq_append_cons_of_mem entered
        rw [splitOn_enter enter] at unchanged
        obtain ⟨final, finished, handed⟩ :=
          @readCommand_enters behind frame console before after
            (fun key member => small key (by simp [member]))
            (fun member => mapped (by simp [member])) enter
        have later := @ih (dispatch execve frame final) after
          (fun key member => small key (by simp [member]))
          (fun member => mapped (by simp [member]))
          (fun line member => unchanged line (by simp [member]))
        rw [rounds_succ finished, later, handed, enteredLines_enter enter,
          unchanged_iff.mpr (unchanged before (by simp)), Option.map_map, Option.map_map]
        rfl
      · rw [enteredLines_none entered, rounds,
          Port.bind_waiting (readCommand_waits small mapped entered)]
        rfl

/-- With a newline behind the literal they do so only then. -/
theorem edited_rounds (small : ∀ key ∈ keys, key < 256)
    (edited : ∀ count, (rounds execve 10 frame count console keys).result =
      (enteredLines count keys).map fun entered => (entered.1.map some, entered.2)) :
    0x1B ∉ keys ∧ ∀ line ∈ (keys.splitOn 0x1C).dropLast, Unchanged line := by
  induction size : keys.length using Nat.strong_induction_on generalizing keys console with
  | _ size ih =>
      subst size
      by_cases entered : 0x1C ∈ keys
      · obtain ⟨before, after, rfl, enter⟩ := List.eq_append_cons_of_mem entered
        have smallBefore : ∀ key ∈ before, key < 256 := fun key member =>
          small key (by simp [member])
        have mapped : 0x1B ∉ before := by
          intro bracket
          obtain ⟨commands, back, early⟩ := rounds_bracket smallBefore bracket enter
          have once := edited 1
          rw [early, enteredLines_enter enter] at once
          have left : back ++ 0x1C :: after = after := congrArg Prod.snd (Option.some.inj once)
          have lengths := congrArg List.length left
          simp only [List.length_append, List.length_cons] at lengths
          omega
        obtain ⟨final, finished, handed⟩ :=
          @readCommand_enters 10 frame console before after smallBefore mapped enter
        have next : ∀ count, (rounds execve 10 frame count (dispatch execve frame final)
            after).result.map
              (fun later => (some ((before.filterMap decode).take 126) :: later.1, later.2)) =
            ((enteredLines count after).map fun entered => (entered.1.map some, entered.2)).map
              (fun later => (some (editedLine before) :: later.1, later.2)) := by
          intro count
          have more := edited (count + 1)
          rw [rounds_succ finished, handed, enteredLines_enter enter] at more
          rw [more, Option.map_map, Option.map_map]
          rfl
        have first : Unchanged before := by
          have head := congrArg (fun handed => handed.1.head?) (Option.some.inj (next 0))
          exact unchanged_iff.mp (Option.some.inj (Option.some.inj head))
        rw [unchanged_iff.mpr first] at next
        have behead : Function.Injective fun later : List (Option (List UInt8)) × List Nat =>
            (some (editedLine before) :: later.1, later.2) := by
          rintro ⟨lines, left⟩ ⟨others, right⟩ same
          simpa using same
        obtain ⟨later, unchanged⟩ := ih after.length (by simp; omega)
          (fun key member => small key (by simp [member]))
          (fun count => Option.map_injective behead (next count)) rfl
        rw [splitOn_enter enter]
        exact ⟨by simp [mapped, later], List.forall_mem_cons.mpr ⟨first, unchanged⟩⟩
      · have mapped : 0x1B ∉ keys := by
          intro bracket
          obtain ⟨commands, back, early⟩ := @rounds_bracket execve frame console keys [] small
            bracket entered
          have once := edited 1
          rw [List.append_nil] at early
          rw [early, enteredLines_none entered] at once
          cases once
        rw [List.splitOn_eq_singleton entered]
        exact ⟨mapped, by simp⟩

/-- For any scancodes, every command is the edited line, whatever byte is behind
the literal, if and only if no scancode is `0x1B` and every line that Enter ends
begins with the characters typed first, as far as the buffer goes. -/
theorem commands_edited_iff (execve : Syscall.Console → Syscall.Console × Int) (frame : Frame)
    (console : Syscall.Console) (scancodes : List UInt8) :
    (∀ behind count,
      (consoleProcess execve behind frame count console (scancodes.map UInt8.toNat)).result =
        (enteredLines count (scancodes.map UInt8.toNat)).map fun entered =>
          (entered.1.map some, entered.2)) ↔
      0x1B ∉ scancodes.map UInt8.toNat ∧
        ∀ line ∈ ((scancodes.map UInt8.toNat).splitOn 0x1C).dropLast, Unchanged line := by
  constructor
  · intro edited
    exact edited_rounds scancodes_small (edited 10)
  · rintro ⟨mapped, unchanged⟩ behind count
    exact rounds_edited scancodes_small mapped unchanged

/-- An `a`, the backspace key and Enter: the command is `"a"`. -/
theorem backspace_kept :
    let console : Syscall.Console := ⟨fun _ => 0, ⟨fun _ => 0, 7, 0, 0, 0, fun _ => 0⟩⟩
    let frame : Frame := ⟨4096, 0, by decide⟩
    let execve (console : Syscall.Console) : Syscall.Console × Int := (console, 0)
    (consoleProcess execve 0 frame 1 console [0x1E, 0x0E, 0x1C]).result =
        some ([some [97]], []) ∧
      enteredLines 1 [0x1E, 0x0E, 0x1C] = some ([[]], []) ∧
      ¬ ∀ behind count, (consoleProcess execve behind frame count console [0x1E, 0x0E, 0x1C]).result =
        (enteredLines count [0x1E, 0x0E, 0x1C]).map fun entered =>
          (entered.1.map some, entered.2) := by
  intro console frame execve
  obtain ⟨final, finished, handed⟩ :=
    @readCommand_enters 0 frame (putstr (setcolor console 7 0) banner) [0x1E, 0x0E] []
      (by decide) (by decide) (by decide)
  have kept : (consoleProcess execve 0 frame 1 console [0x1E, 0x0E, 0x1C]).result =
      some ([some [97]], []) := by
    show (rounds execve 0 frame (0 + 1) _ ([0x1E, 0x0E] ++ 0x1C :: [])).result = _
    rw [rounds_succ finished, handed]
    rfl
  refine ⟨kept, rfl, fun edited => ?_⟩
  have same : some ([some [(97 : UInt8)]], ([] : List Nat)) = some ([some []], []) :=
    kept.symm.trans (edited 0 1)
  exact absurd same (by decide)

end

end Helios.Console
