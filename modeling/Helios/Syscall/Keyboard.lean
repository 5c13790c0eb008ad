import Helios.Syscall.Streams

namespace Helios.Syscall

open Helios.Data Helios.Terminal

/-! The two readers of the keyboard, `sys_read` and the `console_read` of
`device.c`, against one line editor. -/

/-- What both loops do with a key; only `sys_read` echoes the characters. -/
def typeKey (echo : Screen → UInt8 → Screen) (behind : UInt8) (buf count : Nat) (line : Line)
    (key : Nat) : Line × Bool :=
  if key < 0x80 then
    let (line, c) := switchKey behind buf line key
    if c ≠ 0 ∧ line.i < count then
      (⟨⟨line.memory.store8 (buf + line.i) c, echo line.screen c⟩, line.i + 1⟩, c = 10)
    else (line, false)
  else (line, false)

/-- The loop and what is returned after it. -/
def readLine (echo : Screen → UInt8 → Screen) (behind : UInt8) (console : Console)
    (buf count : Nat) : Port (Console × Int) := do
  let line ← Port.readWhile 0x60 (fun line => line.i < count) (typeKey echo behind buf count)
    ⟨console, 0⟩
  pure (line.toConsole, signed line.i)

/-- `console_read`; `behind` is the byte behind its own copy of the literal. -/
def consoleRead (behind : UInt8) (console : Console) (buf count : Nat) : Port (Console × Int) :=
  readLine (fun screen _ => screen) behind console buf count

/-- The memory when the loop ends or waits for a key. -/
def lastMemory (echo : Screen → UInt8 → Screen) (behind : UInt8) (console : Console)
    (buf count : Nat) (keys : List Nat) : Memory :=
  (Port.readState (fun line : Line => line.i < count) (typeKey echo behind buf count) ⟨console, 0⟩
    keys).memory

/-- The string literal that the `default` of the `switch` indexes, and the index. -/
def lookedUp (key : Nat) : Option (List UInt8 × Nat) :=
  if key = 0x1C ∨ key = 0x0E ∨ key = 0x39 then none
  else if 0x10 ≤ key ∧ key ≤ 0x1C then some (topRow, key - 0x10)
  else if 0x1E ≤ key ∧ key ≤ 0x26 then some (homeRow, key - 0x1E)
  else if 0x2C ≤ key ∧ key ≤ 0x32 then some (bottomRow, key - 0x2C)
  else if 0x02 ≤ key ∧ key ≤ 0x0B then some (numberRow, key - 0x02)
  else none

/-- The character of a key, if it has one: the other keys and the releases are
ignored. -/
def decode (key : Nat) : Option UInt8 :=
  if key = 0x1C then some 10
  else if key = 0x39 then some 32
  else if 0x10 ≤ key ∧ key ≤ 0x19 then topRow[key - 0x10]?
  else if 0x1E ≤ key ∧ key ≤ 0x26 then homeRow[key - 0x1E]?
  else if 0x2C ≤ key ∧ key ≤ 0x32 then bottomRow[key - 0x2C]?
  else if 0x02 ≤ key ∧ key ≤ 0x0B then numberRow[key - 0x02]?
  else none

/-- A key of the line editor: the characters held so far, and after it. -/
def edit (held : List UInt8) (key : Nat) : List UInt8 :=
  if key = 0x0E then held.dropLast else held ++ (decode key).toList

/-- The line editor: it stops when `count` characters are held or the last one
is a newline, with what is left of the keys, and waits when they run out. -/
def editLine (count : Nat) : List UInt8 → List Nat → Option (List UInt8 × List Nat)
  | held, [] => if held.length < count then none else some (held, [])
  | held, key :: rest =>
      if held.length < count then
        if decode key = some 10 then some (edit held key, rest)
        else editLine count (edit held key) rest
      else some (held, key :: rest)

/-- The keys that the line editor takes. -/
def editedKeys (count : Nat) : List UInt8 → List Nat → List Nat
  | _, [] => []
  | held, key :: rest =>
      if held.length < count then
        key :: if decode key = some 10 then [] else editedKeys count (edit held key) rest
      else []

/-- The keys that a run has taken. -/
def takenKeys {α : Type} (keys : List Nat) (result : Option (α × List Nat)) : List Nat :=
  match result with
  | none => keys
  | some (_, left) => keys.take (keys.length - left.length)

/-- A run does what the line editor does, looks up no key outside the literal,
and writes into the buffer alone, also while it waits; `last` is the memory
when it ends or waits. -/
structure Reads (buf count : Nat) (memory : Memory) (keys : List Nat)
    (trace : Trace (Console × Int)) (last : Memory) : Prop where
  waiting : editLine count [] keys = none → trace.result = none
  finished : ∀ held left, editLine count [] keys = some (held, left) →
    ∃ console, trace.result = some ((console, (held.length : Int)), left) ∧
      held.length ≤ count ∧ console.memory = last ∧ last.bytes buf held.length = held
  lookups : ∀ key ∈ takenKeys keys trace.result, ∀ characters index,
    lookedUp key = some (characters, index) → index ≤ characters.length
  confined : Memory.Confined buf (buf + count) memory last

section

variable {echo : Screen → UInt8 → Screen} {behind : UInt8} {buf count key : Nat} {line : Line}
variable {held final : List UInt8} {keys left : List Nat} {console : Console}

theorem sysRead_eq : sysRead behind console 0 buf count =
    readLine screenPutchar behind console buf count := rfl

theorem literal_eq {characters : List UInt8} {index : Nat} (inside : index ≤ characters.length) :
    literal characters behind index = characters[index]?.getD 0 := by
  rw [literal, List.getD_eq_getElem?_getD, List.getElem?_append]
  split
  · rw [List.getElem?_eq_getElem (by assumption)]
    rfl
  · have last : index = characters.length := by omega
    simp [last]

/-- The character of the `switch` is the one looked up. -/
theorem switchKey_lookedUp : (switchKey behind buf line key).2 =
    if key = 0x1C then 10 else if key = 0x39 then 32
    else (lookedUp key).elim 0 fun found => literal found.1 behind found.2 := by
  unfold switchKey lookedUp keyChar
  split_ifs
  all_goals first | rfl | omega

theorem lookedUp_inside_iff : (∀ characters index, lookedUp key = some (characters, index) →
    index ≤ characters.length) ↔ key ≠ 0x1B := by
  constructor
  · rintro inside rfl
    exact absurd (inside topRow 11 rfl) (by decide)
  · intro mapped characters index found
    unfold lookedUp at found
    split_ifs at found
    all_goals
      cases found
      simp only [topRow, homeRow, bottomRow, numberRow, List.length_cons, List.length_nil]
      omega

/-- A key that is looked up inside its literal has the character it decodes to. -/
theorem lookedUp_decode (mapped : key ≠ 0x1B) (enter : key ≠ 0x1C) (space : key ≠ 0x39) :
    ((lookedUp key).elim 0 fun found => literal found.1 behind found.2) = (decode key).getD 0 := by
  cases found : lookedUp key with
  | none =>
      have unmapped : decode key = none := by
        unfold lookedUp at found
        unfold decode
        split_ifs at found ⊢ <;> first | rfl | omega
      rw [unmapped]
      rfl
  | some pair =>
      obtain ⟨characters, index⟩ := pair
      have inside := lookedUp_inside_iff.mpr mapped characters index found
      have decoded : decode key = characters[index]? := by
        unfold lookedUp at found
        unfold decode
        rw [if_neg enter, if_neg space]
        split_ifs at found with _ top home bottom number
        · obtain ⟨rfl, rfl⟩ := Prod.mk.inj (Option.some.inj found)
          by_cases letter : key ≤ 0x19
          · rw [if_pos ⟨top.1, letter⟩]
          · have terminator : key = 0x1A := by omega
            subst terminator
            rfl
        · obtain ⟨rfl, rfl⟩ := Prod.mk.inj (Option.some.inj found)
          rw [if_neg (by omega), if_pos home]
        · obtain ⟨rfl, rfl⟩ := Prod.mk.inj (Option.some.inj found)
          rw [if_neg (by omega), if_neg home, if_pos bottom]
        · obtain ⟨rfl, rfl⟩ := Prod.mk.inj (Option.some.inj found)
          rw [if_neg (by omega), if_neg home, if_neg bottom, if_pos number]
      rw [decoded]
      exact literal_eq inside

/-- Enter has the newline, and every other key with a character a printable one. -/
theorem decode_printable {c : UInt8} (decoded : decode key = some c) :
    key = 0x1C ∧ c = 10 ∨ key ≠ 0x1C ∧ 32 ≤ c ∧ c < 127 := by
  have typed {characters : List UInt8} {index : Nat}
      (printable : ∀ c ∈ characters, 32 ≤ c ∧ c < 127) (found : characters[index]? = some c) :
      32 ≤ c ∧ c < 127 := printable c (List.mem_of_getElem? found)
  unfold decode at decoded
  split_ifs at decoded with enter
  · exact .inl ⟨enter, (Option.some.inj decoded).symm⟩
  · cases decoded
    exact .inr ⟨enter, by decide⟩
  · exact .inr ⟨enter, typed (by simp [topRow]) decoded⟩
  · exact .inr ⟨enter, typed (by simp [homeRow]) decoded⟩
  · exact .inr ⟨enter, typed (by simp [bottomRow]) decoded⟩
  · exact .inr ⟨enter, typed (by simp [numberRow]) decoded⟩

theorem decode_nonzero {c : UInt8} (decoded : decode key = some c) : c ≠ 0 := by
  rcases decode_printable decoded with ⟨_, rfl⟩ | ⟨_, above, _⟩
  · decide
  · rintro rfl
    exact absurd above (by decide)

theorem decode_release (released : 0x80 ≤ key) : decode key = none := by
  unfold decode
  split_ifs <;> first | rfl | omega

/-- The buffer holds the characters of the line editor. -/
structure Holds (buf count : Nat) (line : Line) (held : List UInt8) : Prop where
  index : line.i = held.length
  room : held.length ≤ count
  bytes : line.memory.bytes buf held.length = held

theorem Holds.erase (holds : Holds buf count line held) :
    Holds buf count (eraseLast buf line) held.dropLast := by
  have index := holds.index
  have room := holds.room
  rcases held.eq_nil_or_concat' with rfl | ⟨others, last, rfl⟩
  · have empty : ¬ line.i > 0 := by simp [index]
    rw [eraseLast, if_neg empty]
    exact holds
  · have more : line.i = others.length + 1 := by simpa using index
    have stored := holds.bytes
    rw [List.length_append, List.length_singleton, Memory.bytes_succ] at stored
    have front := (List.append_inj' stored rfl).1
    rw [eraseLast, if_pos (by omega), List.dropLast_concat, more, Nat.add_sub_cancel]
    refine ⟨rfl, by simp at room; omega, ?_⟩
    exact (Memory.bytes_congr fun position small => Memory.store8_other (by omega)).trans front

theorem Holds.append {c : UInt8} {screen : Screen} (holds : Holds buf count line held)
    (more : held.length < count) :
    Holds buf count ⟨⟨line.memory.store8 (buf + line.i) c, screen⟩, line.i + 1⟩ (held ++ [c]) := by
  have index := holds.index
  refine ⟨by simp [index], by simpa using more, ?_⟩
  have kept : (line.memory.store8 (buf + held.length) c).bytes buf held.length = held := by
    rw [Memory.bytes_congr fun position small => Memory.store8_other (by omega)]
    exact holds.bytes
  rw [List.length_append, List.length_singleton, Memory.bytes_succ, index, kept]
  exact congrArg (fun byte => held ++ [byte]) Memory.store8_same

theorem switchKey_typed (mapped : key ≠ 0x1B) (other : key ≠ 0x0E) :
    switchKey behind buf line key = (line, (decode key).getD 0) := by
  have char : (switchKey behind buf line key).2 = (decode key).getD 0 := by
    rw [switchKey_lookedUp]
    by_cases enter : key = 0x1C
    · simp [enter, decode]
    · by_cases space : key = 0x39
      · simp [space, decode]
      · rw [if_neg enter, if_neg space]
        exact lookedUp_decode mapped enter space
  have same : (switchKey behind buf line key).1 = line := by
    unfold switchKey
    split_ifs <;> rfl
  exact Prod.ext same char

/-- What a key does to the buffer and to the line editor. -/
theorem Holds.type (holds : Holds buf count line held) (more : held.length < count)
    (mapped : key ≠ 0x1B) :
    Holds buf count (typeKey echo behind buf count line key).1 (edit held key) ∧
      ((typeKey echo behind buf count line key).2 = true ↔ decode key = some 10) := by
  have index := holds.index
  unfold typeKey edit
  by_cases released : key < 0x80
  · rw [if_pos released]
    by_cases back : key = 0x0E
    · subst back
      exact ⟨holds.erase, by simp [switchKey, decode]⟩
    · rw [if_neg back, switchKey_typed mapped back]
      cases decoded : decode key with
      | none => simpa using holds
      | some c =>
          have stores : c ≠ 0 ∧ line.i < count := ⟨decode_nonzero decoded, by omega⟩
          simp only [Option.getD_some, if_pos stores, Option.toList_some]
          exact ⟨holds.append more, by simp⟩
  · have silent := decode_release (Nat.le_of_not_lt released)
    rw [if_neg released, if_neg (by omega), silent]
    simpa using holds

/-- A finished line editor leaves the keys that it has not taken. -/
theorem editedKeys_append (edited : editLine count held keys = some (final, left)) :
    keys = editedKeys count held keys ++ left := by
  induction keys generalizing held with
  | nil =>
      rw [editLine] at edited
      split at edited
      · cases edited
      · cases edited
        rfl
  | cons key rest ih =>
      rw [editLine] at edited
      rw [editedKeys]
      split_ifs at edited ⊢
      · cases edited
        rfl
      · rw [List.cons_append, ← ih edited]
      · cases edited
        rfl

theorem editedKeys_waiting (waits : editLine count held keys = none) :
    editedKeys count held keys = keys := by
  induction keys generalizing held with
  | nil => rfl
  | cons key rest ih =>
      rw [editLine] at waits
      rw [editedKeys]
      split_ifs at waits ⊢
      rw [ih waits]

theorem takenKeys_editLine : takenKeys keys (editLine count held keys) =
    editedKeys count held keys := by
  cases edited : editLine count held keys with
  | none => exact (editedKeys_waiting edited).symm
  | some pair =>
      obtain ⟨final, left⟩ := pair
      have split := editedKeys_append edited
      show keys.take (keys.length - left.length) = _
      generalize editedKeys count held keys = front at split
      subst split
      rw [List.length_append, Nat.add_sub_cancel, List.take_left]

/-- The loop of either reader runs as the line editor does, as long as the editor
takes no key that is looked up outside its literal. -/
theorem Holds.run (holds : Holds buf count line held) (small : ∀ key ∈ keys, key < 256)
    (mapped : 0x1B ∉ editedKeys count held keys) :
    Option.Rel (fun (run : Line × List Nat) edited => run.2 = edited.2 ∧
        Holds buf count run.1 edited.1)
      (Port.readWhile 0x60 (fun line : Line => line.i < count)
        (typeKey echo behind buf count) line keys).result
      (editLine count held keys) := by
  induction keys generalizing line held with
  | nil =>
      rw [editLine, Port.readWhile, holds.index]
      by_cases more : held.length < count
      · rw [if_pos more, if_pos (by simpa using more)]
        exact .none
      · rw [if_neg more, if_neg (by simpa using more)]
        exact .some ⟨rfl, holds⟩
  | cons key rest ih =>
      rw [editedKeys] at mapped
      rw [editLine, Port.readWhile, holds.index, Nat.mod_eq_of_lt (small key (by simp))]
      by_cases more : held.length < count
      · rw [if_pos more] at mapped ⊢
        rw [if_pos (by simpa using more)]
        obtain ⟨here, later⟩ := not_or.mp (mt List.mem_cons.mpr mapped)
        obtain ⟨next, stops⟩ : Holds buf count (typeKey echo behind buf count line key).1
            (edit held key) ∧
            ((typeKey echo behind buf count line key).2 = true ↔ decode key = some 10) :=
          holds.type more (Ne.symm here)
        by_cases enter : decode key = some 10
        · simp only [enter, stops.mpr enter, if_true]
          exact .some ⟨rfl, next⟩
        · rw [if_neg enter] at later
          simp only [enter, mt stops.mp enter, if_false]
          exact ih next (fun other member => small other (by simp [member])) later
      · rw [if_neg more, if_neg (by simpa using more)]
        exact .some ⟨rfl, holds⟩

/-- No key takes the writes of a reader out of the buffer. -/
theorem typeKey_confined {start : Memory}
    (inside : line.i ≤ count ∧ Memory.Confined buf (buf + count) start line.memory)
    (more : line.i < count) :
    (typeKey echo behind buf count line key).1.i ≤ count ∧
      Memory.Confined buf (buf + count) start (typeKey echo behind buf count line key).1.memory := by
  have erased : (eraseLast buf line).i ≤ count ∧
      Memory.Confined buf (buf + count) start (eraseLast buf line).memory := by
    unfold eraseLast
    split
    · exact ⟨by simp only; omega, inside.2.store8 (by omega) (by omega)⟩
    · exact inside
  have switched : (switchKey behind buf line key).1.i ≤ count ∧
      Memory.Confined buf (buf + count) start (switchKey behind buf line key).1.memory := by
    unfold switchKey
    split_ifs
    · exact inside
    · exact erased
    · exact inside
    · exact inside
  unfold typeKey
  split
  · simp only
    split
    · exact ⟨by simp only; omega, switched.2.store8 (by omega) (by omega)⟩
    · exact switched
  · exact inside

theorem lastMemory_confined :
    Memory.Confined buf (buf + count) console.memory
      (lastMemory echo behind console buf count keys) :=
  (Port.readState_invariant
    (fun line : Line => line.i ≤ count ∧
      Memory.Confined buf (buf + count) console.memory line.memory)
    ⟨Nat.zero_le _, .refl⟩ fun _ _ inside more =>
      typeKey_confined inside (of_decide_eq_true more)).2

theorem takenKeys_eq {α : Type} {result : Option (α × List Nat)}
    (waiting : editLine count [] keys = none → result = none)
    (finished : ∀ held left, editLine count [] keys = some (held, left) →
      ∃ value, result = some (value, left)) :
    takenKeys keys result = editedKeys count [] keys := by
  rw [← takenKeys_editLine]
  cases edited : editLine count [] keys with
  | none =>
      rw [waiting edited]
      rfl
  | some pair =>
      obtain ⟨_, same⟩ := finished pair.1 pair.2 edited
      rw [same]
      rfl

/-- The runs in which the line editor takes no key that is looked up outside its
literal. -/
theorem readLine_edits (small : ∀ key ∈ keys, key < 256)
    (mapped : 0x1B ∉ editedKeys count [] keys) :
    (editLine count [] keys = none →
      (readLine echo behind console buf count keys).result = none) ∧
      ∀ held left, editLine count [] keys = some (held, left) → ∃ line : Line,
        (readLine echo behind console buf count keys).result =
          some ((line.toConsole, signed held.length), left) ∧
        line.memory = lastMemory echo behind console buf count keys ∧
        Holds buf count line held := by
  have start : Holds buf count ⟨console, 0⟩ [] := ⟨rfl, Nat.zero_le _, rfl⟩
  have runs : Option.Rel (fun (run : Line × List Nat) edited => run.2 = edited.2 ∧
      Holds buf count run.1 edited.1)
      (Port.readWhile 0x60 (fun line : Line => line.i < count) (typeKey echo behind buf count)
        ⟨console, 0⟩ keys).result (editLine count [] keys) := start.run small mapped
  constructor
  · intro waits
    rw [waits] at runs
    cases result : (Port.readWhile 0x60 (fun line : Line => line.i < count)
        (typeKey echo behind buf count) ⟨console, 0⟩ keys).result with
    | none => rw [readLine, Port.bind_waiting result]
    | some pair =>
        rw [result] at runs
        cases runs
  · intro held left edited
    rw [edited] at runs
    cases result : (Port.readWhile 0x60 (fun line : Line => line.i < count)
        (typeKey echo behind buf count) ⟨console, 0⟩ keys).result with
    | none =>
        rw [result] at runs
        cases runs
    | some pair =>
        obtain ⟨line, rest⟩ := pair
        rw [result] at runs
        obtain ⟨same, holds⟩ : rest = left ∧ Holds buf count line held := by
          cases runs with
          | some related => exact related
        refine ⟨line, ?_, congrArg (fun line : Line => line.memory) (Port.readWhile_state result),
          holds⟩
        rw [readLine, Port.bind_finished result, same, ← holds.index]
        rfl

theorem readLine_iff (small : ∀ key ∈ keys, key < 256) :
    Reads buf count console.memory keys (readLine echo behind console buf count keys)
        (lastMemory echo behind console buf count keys) ↔
      0x1B ∉ editedKeys count [] keys ∧
        ∀ held left, editLine count [] keys = some (held, left) → held.length < 0x80000000 := by
  constructor
  · intro reads
    have taken : takenKeys keys (readLine echo behind console buf count keys).result =
        editedKeys count [] keys :=
      takenKeys_eq reads.waiting fun held left edited => by
        obtain ⟨_, result, _⟩ := reads.finished held left edited
        exact ⟨_, result⟩
    have mapped : 0x1B ∉ editedKeys count [] keys := fun member =>
      lookedUp_inside_iff.mp (reads.lookups 0x1B (taken ▸ member)) rfl
    refine ⟨mapped, fun held left edited => ?_⟩
    obtain ⟨_, result, _⟩ := reads.finished held left edited
    obtain ⟨line, returned, _⟩ :=
      (@readLine_edits echo behind buf count keys console small mapped).2 held left edited
    rw [result] at returned
    have same : (held.length : Int) = signed held.length :=
      congrArg (fun pair => pair.1.2) (Option.some.inj returned)
    exact signed_eq_iff.mp same.symm
  · rintro ⟨mapped, short⟩
    obtain ⟨waiting, finished⟩ :=
      @readLine_edits echo behind buf count keys console small mapped
    refine ⟨waiting, fun held left edited => ?_, ?_, lastMemory_confined⟩
    · obtain ⟨line, result, last, holds⟩ := finished held left edited
      rw [signed_eq_iff.mpr (short held left edited)] at result
      exact ⟨line.toConsole, result, holds.room, last, last ▸ holds.bytes⟩
    · have taken : takenKeys keys (readLine echo behind console buf count keys).result =
          editedKeys count [] keys :=
        takenKeys_eq waiting fun held left edited => by
          obtain ⟨_, result, _⟩ := finished held left edited
          exact ⟨_, result⟩
      intro key member
      refine lookedUp_inside_iff.mpr fun same => mapped ?_
      rw [← same, ← taken]
      exact member

theorem scancodes_small {scancodes : List UInt8} : ∀ key ∈ scancodes.map UInt8.toNat, key < 256 := by
  intro key member
  obtain ⟨scancode, _, rfl⟩ := List.mem_map.mp member
  exact scancode.toNat_lt

/-- Both readers are the line editor, on any scancodes and for any count, if and
only if the editor takes no key `0x1B`, whose place in the literal is behind its
terminator, and holds fewer than 2^31 characters at its end. -/
theorem keyboard_readers_iff (behind other : UInt8) (console : Console) (buf count : Nat)
    (scancodes : List UInt8) :
    (Reads buf count console.memory (scancodes.map UInt8.toNat)
        (sysRead behind console 0 buf count (scancodes.map UInt8.toNat))
        (lastMemory screenPutchar behind console buf count (scancodes.map UInt8.toNat)) ∧
      Reads buf count console.memory (scancodes.map UInt8.toNat)
        (consoleRead other console buf count (scancodes.map UInt8.toNat))
        (lastMemory (fun screen _ => screen) other console buf count
          (scancodes.map UInt8.toNat))) ↔
      0x1B ∉ editedKeys count [] (scancodes.map UInt8.toNat) ∧
        ∀ held left, editLine count [] (scancodes.map UInt8.toNat) = some (held, left) →
          held.length < 0x80000000 := by
  rw [sysRead_eq, consoleRead, readLine_iff scancodes_small, readLine_iff scancodes_small, and_self]

/-- The key `0x1B` with an `a` behind the literal: it is read as an `a`. -/
theorem bracket_key_read :
    let console : Console := ⟨fun _ => 0, ⟨fun _ => 0, 7, 0, 0, 0, fun _ => 0⟩⟩
    (∃ after, (sysRead 97 console 0 0 1 [0x1B]).result = some ((after, 1), []) ∧
        after.memory 0 = 97) ∧
      editLine 1 [] [0x1B] = none ∧
      ¬ Reads 0 1 console.memory [0x1B] (sysRead 97 console 0 0 1 [0x1B])
        (lastMemory screenPutchar 97 console 0 1 [0x1B]) := by
  intro console
  have read : ∃ after, (sysRead 97 console 0 0 1 [0x1B]).result = some ((after, 1), []) ∧
      after.memory 0 = 97 := ⟨_, rfl, rfl⟩
  refine ⟨read, rfl, fun reads => ?_⟩
  obtain ⟨_, result, _⟩ := read
  rw [reads.waiting rfl] at result
  cases result

end

end Helios.Syscall
