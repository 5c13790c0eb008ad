import Helios.Syscall.Runs

namespace Helios.Syscall

open Helios.Data Helios.Process ProcessManager

/-! The descriptors of a process, as the calls returned them. -/

/-- A state with the open descriptors of the process in each slot. -/
structure FdLedger where
  manager : ProcessManager
  opened : Slot → Finset Nat

namespace FdLedger

def start (kernelPageDir : Nat) : FdLedger := ⟨initProcessManager kernelPageDir, fun _ => ∅⟩

/-- The open descriptors of the current process. -/
def current (ledger : FdLedger) : Finset Nat :=
  match ledger.manager.currentProcess with
  | none => ∅
  | some slot => ledger.opened slot

def IsOpen (ledger : FdLedger) (fd : Int) : Prop := ∃ index : Nat, fd = index ∧ index ∈ ledger.current

/-- One of the slots from `3` on is unused. -/
def HasRoom (ledger : FdLedger) : Prop := ∃ index, 3 ≤ index ∧ index < 16 ∧ index ∉ ledger.current

/-- The open descriptors after those of the current process have become `now`. -/
def become (ledger : FdLedger) (now : Finset Nat) : Slot → Finset Nat :=
  match ledger.manager.currentProcess with
  | none => ledger.opened
  | some slot => Function.update ledger.opened slot now

def record (ledger : FdLedger) : Operation → Reply → Slot → Finset Nat
  | .process .forkProcess, .filled (some slot) => Function.update ledger.opened slot ledger.current
  | .process _, .filled (some slot) => Function.update ledger.opened slot ∅
  | .open _ _ _, .code code =>
      if 0 ≤ code then ledger.become (insert code.toNat ledger.current) else ledger.opened
  | .dup _, .code code =>
      if 0 ≤ code then ledger.become (insert code.toNat ledger.current) else ledger.opened
  | .pipe _, .pipe _ (some (fd1, fd2)) => ledger.become (insert fd2 (insert fd1 ledger.current))
  | .close fd, .code code =>
      if code = 0 then ledger.become (ledger.current.erase fd.toNat) else ledger.opened
  | _, _ => ledger.opened

def step (ledger : FdLedger) (input : Operation) : Option FdLedger :=
  (handle ledger.manager input).map fun (next, reply) => ⟨next, ledger.record input reply⟩

/-- `sys_close` succeeds only for open descriptors. -/
def LawfulClose (ledger : FdLedger) (fd : Int) : Prop :=
  ∃ next code, sysClose ledger.manager fd = some (next, code) ∧ (code = 0 → ledger.IsOpen fd)

/-- `sys_dup` succeeds only for open descriptors, for each of them while there is
room, and returns one that is not open. -/
def LawfulDup (ledger : FdLedger) (fd : Int) : Prop :=
  ∃ next code, sysDup ledger.manager fd = some (next, code) ∧
    (0 ≤ code → ledger.IsOpen fd ∧ ¬ ledger.IsOpen code) ∧
    (ledger.IsOpen fd → ledger.HasRoom → 0 ≤ code)

/-- `sys_pipe` returns two descriptors that are not open. -/
def LawfulPipe (ledger : FdLedger) (pipefd : Bool) : Prop :=
  ∃ next code written, sysPipe ledger.manager pipefd = some (next, code, written) ∧
    ∀ fd1 fd2, written = some (fd1, fd2) →
      fd1 ≠ fd2 ∧ ¬ ledger.IsOpen (fd1 : Nat) ∧ ¬ ledger.IsOpen (fd2 : Nat)

def CloseMeets (ledger : FdLedger) (fd : Int) : Prop := fd < 0 ∨ 16 ≤ fd ∨ ledger.IsOpen fd

/-- The descriptor is not one of the standard streams, opened by name. -/
def DupMeets (ledger : FdLedger) (fd : Int) : Prop :=
  ¬ (ledger.IsOpen fd ∧ fd < 3 ∧ ledger.HasRoom)

/-- What a call must meet for the table to record the open descriptors. -/
def Meets (ledger : FdLedger) : Operation → Prop
  | .close fd => ledger.CloseMeets fd
  | .dup fd => ledger.DupMeets fd
  | .pipe pipefd => pipefd = true ∨ ∀ one other, 3 ≤ one → one < other → other < 16 →
      one ∈ ledger.current ∨ other ∈ ledger.current
  | .process .forkProcess => freeSlot ledger.manager = ledger.manager.currentProcess →
      ∀ index ∈ ledger.current, index < 3
  | _ => True

end FdLedger

/-- A table records the open descriptors from `3` on, and none below. -/
structure Agrees (fd : List Int) (opened : Finset Nat) : Prop where
  length : fd.length = 16
  standard : ∀ index < 3, fd.getD index 0 = -1
  recorded : ∀ index, 3 ≤ index → index < 16 → (fd.getD index 0 ≠ -1 ↔ index ∈ opened)
  bounded : ∀ index ∈ opened, index < 16

section

variable {table : List Int} {opened : Finset Nat} {index : Nat} {value : Int} {pcb : Pcb}

theorem fd_aside : Aside fun pcb => pcb.fd := ⟨fun _ _ => rfl, fun _ _ => rfl, fun _ _ => rfl⟩

theorem OnlyBrk.fd {change : Pcb → Pcb} (own : OnlyBrk change) (pcb : Pcb) :
    (change pcb).fd = pcb.fd := by
  rw [own pcb]

theorem getD_set (inside : index < table.length) (other : Nat) :
    (table.set index value).getD other 0 = if other = index then value else table.getD other 0 := by
  by_cases same : other = index
  · subst same
    simp [inside]
  · simp [same, Ne.symm same]

namespace Agrees

theorem empty (standard : ∀ index ∈ opened, index < 3) : Agrees (List.replicate 16 (-1)) opened := by
  have blank : ∀ index < 16, (List.replicate 16 (-1 : Int)).getD index 0 = -1 := by decide
  refine ⟨by simp, fun index below => blank index (by omega), fun index above inside => ?_,
    fun index member => (standard index member).trans (by decide)⟩
  simp only [blank index inside, ne_eq, not_true_eq_false, false_iff]
  exact fun member => absurd (standard index member) (by omega)

theorem close (agrees : Agrees table opened) (inside : index < 16) :
    Agrees (table.set index (-1)) (opened.erase index) := by
  have entry := @getD_set table index (-1) (by rw [agrees.length]; exact inside)
  refine ⟨by simp [agrees.length], fun other below => ?_, fun other above low => ?_,
    fun other member => agrees.bounded other (Finset.mem_of_mem_erase member)⟩
  · rw [entry]
    split
    · rfl
    · exact agrees.standard other below
  · rw [entry, Finset.mem_erase]
    split
    · rename_i same
      simp [same]
    · rename_i different
      simpa [different] using agrees.recorded other above low

theorem add (agrees : Agrees table opened) (above : 3 ≤ index) (inside : index < 16)
    (used : value ≠ -1) : Agrees (table.set index value) (insert index opened) := by
  have entry := @getD_set table index value (by rw [agrees.length]; exact inside)
  refine ⟨by simp [agrees.length], fun other below => ?_, fun other high low => ?_,
    fun other member => ?_⟩
  · rw [entry, if_neg (by omega)]
    exact agrees.standard other below
  · rw [entry, Finset.mem_insert]
    split
    · rename_i same
      simp [same, used]
    · rename_i different
      simpa [different] using agrees.recorded other high low
  · cases Finset.mem_insert.mp member with
    | inl same => exact same ▸ inside
    | inr earlier => exact agrees.bounded other earlier

theorem addStandard (agrees : Agrees table opened) (below : index < 3) :
    Agrees table (insert index opened) := by
  refine ⟨agrees.length, agrees.standard, fun other above low => ?_, fun other member => ?_⟩
  · rw [agrees.recorded other above low, Finset.mem_insert, or_iff_right (by omega)]
  · cases Finset.mem_insert.mp member with
    | inl same => omega
    | inr earlier => exact agrees.bounded other earlier

theorem mem_unusedSlots (agrees : Agrees pcb.fd opened) :
    index ∈ unusedSlots pcb ↔ 3 ≤ index ∧ index < 16 ∧ index ∉ opened := by
  simp only [unusedSlots, descriptor, List.mem_filter, List.mem_range'_1]
  constructor
  · rintro ⟨⟨above, inside⟩, blank⟩
    refine ⟨above, inside, fun member => ?_⟩
    exact (agrees.recorded index above inside).mpr member (of_decide_eq_true blank)
  · rintro ⟨above, inside, outside⟩
    refine ⟨⟨above, inside⟩, ?_⟩
    by_contra used
    exact outside ((agrees.recorded index above inside).mp fun blank => used (decide_eq_true blank))

end Agrees

theorem unusedSlots_sorted {first second : Nat} {rest : List Nat}
    (slots : unusedSlots pcb = first :: second :: rest) : first < second := by
  have all : (List.range' 3 13).Pairwise (· < ·) := List.pairwise_lt_range'
  have sorted : (unusedSlots pcb).Pairwise (· < ·) := all.filter _
  rw [slots, List.pairwise_cons] at sorted
  exact sorted.1 second (by simp)

/-- Every process that can run has a table that records its open descriptors. -/
structure Consistent (ledger : FdLedger) : Prop where
  started : ∃ current, ledger.manager.currentProcess = some current
  agrees : ∀ slot, Pointed ledger.manager slot →
    Agrees (ledger.manager.processTable slot).fd (ledger.opened slot)

variable {ledger next : FdLedger} {manager : ProcessManager} {current : Slot} {input : Operation}

theorem FdLedger.current_eq (found : ledger.manager.currentProcess = some current) :
    ledger.current = ledger.opened current := by
  simp only [FdLedger.current, found]

theorem FdLedger.become_eq (found : ledger.manager.currentProcess = some current) (now : Finset Nat) :
    ledger.become now = Function.update ledger.opened current now := by
  simp only [FdLedger.become, found]

theorem FdLedger.isOpen_iff {index : Nat} : ledger.IsOpen index ↔ index ∈ ledger.current := by
  simp [FdLedger.IsOpen]

namespace Consistent

theorem start (kernelPageDir : Nat) : Consistent (FdLedger.start kernelPageDir) := by
  refine ⟨⟨0, rfl⟩, fun slot pointed => ?_⟩
  have idle : slot = 0 := by
    obtain zero | current | ready | ⟨other, linked⟩ := pointed
    · exact zero
    · exact (Option.some.inj current).symm
    · cases ready
    · by_cases same : other = 0
      · subst same
        cases linked
      · simp [FdLedger.start, initProcessManager, link, same] at linked
  subst idle
  exact .empty (by simp [FdLedger.start])

theorem own (consistent : Consistent ledger) (found : ledger.manager.currentProcess = some current) :
    Agrees (ledger.manager.processTable current).fd ledger.current := by
  rw [FdLedger.current_eq found]
  exact consistent.agrees current (.inr (.inl found))

theorem change {change : Pcb → Pcb} {now : Finset Nat} (consistent : Consistent ledger)
    (found : ledger.manager.currentProcess = some current)
    (linked : ∀ pcb, (change pcb).next = pcb.next)
    (agrees : Agrees (change (ledger.manager.processTable current)).fd now) :
    Consistent ⟨ledger.manager.update current change, ledger.become now⟩ := by
  refine ⟨⟨current, found⟩, fun slot pointed => ?_⟩
  rw [FdLedger.become_eq found]
  by_cases same : slot = current
  · subst same
    simpa [update_same] using agrees
  · simp only [update_other same, Function.update_of_ne same]
    refine consistent.agrees slot ?_
    cases update_pointed pointed with
    | inl before => exact before
    | inr leads => exact .inr (.inr (.inr ⟨current, (linked _).symm.trans leads⟩))

theorem same (consistent : Consistent ledger)
    (started : ∃ current, manager.currentProcess = some current)
    (pointed : ∀ slot, Pointed manager slot → Pointed ledger.manager slot)
    (kept : ∀ slot, (manager.processTable slot).fd = (ledger.manager.processTable slot).fd) :
    Consistent ⟨manager, ledger.opened⟩ :=
  ⟨started, fun slot leads => (kept slot) ▸ consistent.agrees slot (pointed slot leads)⟩

/-- A new process starts with the descriptors of its parent, or with none. -/
theorem given {input : Call} {taken : Slot} (consistent : Consistent ledger)
    (result : call ledger.manager input = some (manager, some taken))
    (meets : ledger.Meets (.process input)) :
    ∃ now, ledger.record (.process input) (.filled (some taken)) =
        Function.update ledger.opened taken now ∧
      Agrees (manager.processTable taken).fd now := by
  obtain ⟨free, _⟩ := call_filled result
  obtain ⟨pcb, filling, same⟩ := filled_aside fd_aside result
  rw [same]
  obtain ⟨_, _, _, _, _, shape, block⟩ | ⟨current, _, shape, found, block⟩ := filling
  · subst shape block
    exact ⟨∅, rfl, .empty (by simp)⟩
  · subst shape block
    refine ⟨ledger.current, rfl, ?_⟩
    simp only [forkPcb]
    by_cases parent : current = taken
    · subst parent
      simp only [clearSlot, update_same, emptyPcb]
      exact .empty (meets (free.trans found.symm))
    · rw [clearSlot, update_other parent]
      exact consistent.own found

theorem called {input : Call} {filled : Option Slot} (consistent : Consistent ledger)
    (result : call ledger.manager input = some (manager, filled))
    (meets : ledger.Meets (.process input)) :
    Consistent ⟨manager, ledger.record (.process input) (.filled filled)⟩ := by
  obtain ⟨current, found⟩ := consistent.started
  have started := call_started found result
  cases filled with
  | none =>
      have unrecorded : ledger.record (.process input) (.filled none) = ledger.opened := by
        cases input with
        | _ => rfl
      rw [unrecorded]
      exact consistent.same started (fun slot leads => (call_pointed result leads).resolve_right nofun)
        fun slot => call_aside fd_aside result slot nofun
  | some taken =>
      obtain ⟨now, recorded, agrees⟩ := consistent.given result meets
      rw [recorded]
      refine ⟨started, fun slot leads => ?_⟩
      by_cases same : slot = taken
      · subst same
        simpa using agrees
      · have apart : some taken ≠ some slot := fun equal => same (Option.some.inj equal).symm
        have before := (call_pointed result leads).resolve_right apart
        simp only [Function.update_of_ne same]
        rw [call_aside fd_aside result slot apart]
        exact consistent.agrees slot before

theorem written (consistent : Consistent ledger) (written : Written ledger.manager OnlyBrk manager) :
    Consistent ⟨manager, ledger.opened⟩ := by
  obtain ⟨current, found⟩ := consistent.started
  refine consistent.same ⟨current, written.current.trans found⟩ (fun slot leads => ?_) fun slot =>
    written.field_eq (fun _ => OnlyBrk.fd) slot
  cases written with
  | nothing => exact leads
  | @changed current change _ own =>
      cases update_pointed leads with
      | inl before => exact before
      | inr linked =>
          rw [own] at linked
          exact .inr (.inr (.inr ⟨current, linked⟩))

theorem opens {path : Strings.CString} {flags mode : Int} (consistent : Consistent ledger) :
    Consistent ⟨ledger.manager, ledger.record (.open path flags mode) (.code (sysOpen path flags mode))⟩ := by
  obtain ⟨current, found⟩ := consistent.started
  have code : sysOpen path flags mode < 3 := by
    simp only [sysOpen]
    split_ifs
    · decide
    · decide
    · decide
    · decide
  simp only [FdLedger.record]
  split
  · have agrees := (consistent.own found).addStandard (show (sysOpen path flags mode).toNat < 3 by omega)
    simpa [update] using @change _ _ id _ consistent found (fun _ => rfl) agrees
  · exact consistent

theorem close {fd : Int} {code : Int} (consistent : Consistent ledger)
    (result : sysClose ledger.manager fd = some (manager, code)) :
    Consistent ⟨manager, ledger.record (.close fd) (.code code)⟩ := by
  obtain ⟨current, found⟩ := consistent.started
  simp only [sysClose] at result
  split at result
  · cases result
    exact consistent
  · rename_i inside
    rw [found] at result
    cases result
    exact consistent.change found (fun _ => rfl) ((consistent.own found).close (by omega))

theorem dup {fd : Int} {code : Int} (consistent : Consistent ledger)
    (result : sysDup ledger.manager fd = some (manager, code)) :
    Consistent ⟨manager, ledger.record (.dup fd) (.code code)⟩ := by
  obtain ⟨current, found⟩ := consistent.started
  simp only [sysDup] at result
  split at result
  · cases result
    exact consistent
  · rw [found] at result
    simp only at result
    split at result
    · cases result
      exact consistent
    · rename_i used
      split at result
      · cases result
        exact consistent
      · rename_i index rest slots
        cases result
        have member : index ∈ unusedSlots (ledger.manager.processTable current) := by simp [slots]
        obtain ⟨above, inside, _⟩ := (consistent.own found).mem_unusedSlots.mp member
        have recorded : ledger.record (.dup fd) (.code index) =
            ledger.become (insert index ledger.current) := by
          simp [FdLedger.record]
        rw [recorded]
        exact consistent.change found (fun _ => rfl) ((consistent.own found).add above inside used)

theorem pipe {pipefd : Bool} {code : Int} {written : Option (Nat × Nat)} (consistent : Consistent ledger)
    (result : sysPipe ledger.manager pipefd = some (manager, code, written))
    (meets : ledger.Meets (.pipe pipefd)) :
    Consistent ⟨manager, ledger.record (.pipe pipefd) (.pipe code written)⟩ := by
  obtain ⟨current, found⟩ := consistent.started
  simp only [sysPipe, found] at result
  split at result
  · rename_i fd1 fd2 rest slots
    cases result
    have agrees := consistent.own found
    obtain ⟨above1, inside1, unused1⟩ := agrees.mem_unusedSlots.mp
      (show fd1 ∈ unusedSlots (ledger.manager.processTable current) by simp [slots])
    obtain ⟨above2, inside2, unused2⟩ := agrees.mem_unusedSlots.mp
      (show fd2 ∈ unusedSlots (ledger.manager.processTable current) by simp [slots])
    have given : pipefd = true := by
      cases meets with
      | inl given => exact given
      | inr full =>
          have order := unusedSlots_sorted slots
          exact absurd (full fd1 fd2 above1 order inside2) (by simp [unused1, unused2])
    subst given
    exact consistent.change found (fun _ => rfl)
      ((agrees.add above1 inside1 (by decide)).add above2 inside2 (by decide))
  · cases result
    exact consistent

theorem step (consistent : Consistent ledger) (meets : ledger.Meets input)
    (taken : ledger.step input = some next) : Consistent next := by
  obtain ⟨⟨manager, reply⟩, handled, same⟩ := Option.map_eq_some_iff.mp taken
  subst same
  cases input with
  | process input =>
      obtain ⟨⟨after, filled⟩, result, same⟩ := Option.map_eq_some_iff.mp handled
      cases same
      exact consistent.called result meets
  | «open» path flags mode =>
      cases handled
      exact consistent.opens
  | close fd =>
      obtain ⟨⟨after, code⟩, result, same⟩ := Option.map_eq_some_iff.mp handled
      cases same
      exact consistent.close result
  | dup oldfd =>
      obtain ⟨⟨after, code⟩, result, same⟩ := Option.map_eq_some_iff.mp handled
      cases same
      exact consistent.dup result
  | pipe pipefd =>
      obtain ⟨⟨after, code, written⟩, result, same⟩ := Option.map_eq_some_iff.mp handled
      cases same
      exact consistent.pipe result meets
  | brk addr =>
      obtain ⟨⟨after, code⟩, result, same⟩ := Option.map_eq_some_iff.mp handled
      cases same
      exact consistent.written (sysBrk_writes result)
  | sbrk increment =>
      obtain ⟨⟨after, code⟩, result, same⟩ := Option.map_eq_some_iff.mp handled
      cases same
      exact consistent.written (sysSbrk_writes result)
  | waitpid pid status options =>
      obtain ⟨⟨after, code, written⟩, result, same⟩ := Option.map_eq_some_iff.mp handled
      cases same
      exact consistent.called (sysWaitpid_calls result) trivial

theorem hasRoom_iff (consistent : Consistent ledger)
    (found : ledger.manager.currentProcess = some current) :
    ledger.HasRoom ↔ unusedSlots (ledger.manager.processTable current) ≠ [] := by
  rw [ne_eq, List.eq_nil_iff_forall_not_mem, not_forall_not]
  simp only [FdLedger.HasRoom, (consistent.own found).mem_unusedSlots]

theorem lawfulClose_iff (consistent : Consistent ledger) (fd : Int) :
    ledger.LawfulClose fd ↔ ledger.CloseMeets fd := by
  obtain ⟨current, found⟩ := consistent.started
  by_cases outside : fd < 0 ∨ 16 ≤ fd
  · have failed : sysClose ledger.manager fd = some (ledger.manager, -1) := by
      rw [sysClose, if_pos outside]
    exact ⟨fun _ => or_assoc.mp (.inl outside), fun _ => ⟨_, _, failed, by simp⟩⟩
  · have closed : sysClose ledger.manager fd =
        some (ledger.manager.update current (setDescriptor fd.toNat (-1)), 0) := by
      rw [sysClose, if_neg outside, found]
    constructor
    · rintro ⟨next, code, result, opened⟩
      rw [closed] at result
      cases result
      exact .inr (.inr (opened rfl))
    · intro meets
      exact ⟨_, _, closed, fun _ => (or_assoc.mpr meets).resolve_left outside⟩

/-- An entry that is used is that of an open descriptor from `3` on. -/
theorem used_iff (consistent : Consistent ledger)
    (found : ledger.manager.currentProcess = some current) {fd : Int} (low : 0 ≤ fd) (high : fd < 16) :
    descriptor (ledger.manager.processTable current) fd.toNat ≠ -1 ↔ ledger.IsOpen fd ∧ 3 ≤ fd := by
  have agrees := consistent.own found
  obtain ⟨index, same⟩ := Int.eq_ofNat_of_zero_le low
  subst same
  rw [FdLedger.isOpen_iff, Int.toNat_natCast, descriptor]
  by_cases above : 3 ≤ index
  · rw [agrees.recorded index above (by omega)]
    exact ⟨fun member => ⟨member, by omega⟩, And.left⟩
  · simp only [agrees.standard index (by omega), ne_eq, not_true_eq_false, false_iff, not_and]
    omega

/-- `sys_dup` succeeds for the open descriptors from `3` on, while there is room. -/
theorem dup_spec (consistent : Consistent ledger) (fd : Int) :
    ∃ next code, sysDup ledger.manager fd = some (next, code) ∧
      (0 ≤ code ↔ ledger.IsOpen fd ∧ 3 ≤ fd ∧ ledger.HasRoom) ∧ (0 ≤ code → ¬ ledger.IsOpen code) := by
  obtain ⟨current, found⟩ := consistent.started
  have agrees := consistent.own found
  by_cases outside : fd < 0 ∨ 16 ≤ fd
  · refine ⟨ledger.manager, -1, by rw [sysDup, if_pos outside], ?_, by simp⟩
    simp only [Int.reduceNeg, Int.reduceLE, false_iff, not_and]
    rintro ⟨index, same, member⟩
    have inside := agrees.bounded index member
    omega
  · have used := @used_iff _ _ consistent found fd (by omega) (by omega)
    rw [sysDup, if_neg outside, found]
    by_cases blank : descriptor (ledger.manager.processTable current) fd.toNat = -1
    · refine ⟨ledger.manager, -1, by simp only [blank, if_true], ?_, by simp⟩
      simp only [Int.reduceNeg, Int.reduceLE, false_iff]
      exact fun opened => used.mpr ⟨opened.1, opened.2.1⟩ blank
    · obtain ⟨opened, above⟩ := used.mp blank
      simp only [if_neg blank, consistent.hasRoom_iff found, opened, above, true_and]
      cases slots : unusedSlots (ledger.manager.processTable current) with
      | nil => exact ⟨ledger.manager, -1, rfl, by simp, by simp⟩
      | cons index rest =>
          refine ⟨_, index, rfl, by simp, fun _ => ?_⟩
          have member : index ∈ unusedSlots (ledger.manager.processTable current) := by simp [slots]
          rw [FdLedger.isOpen_iff]
          exact (agrees.mem_unusedSlots.mp member).2.2

theorem lawfulDup_iff (consistent : Consistent ledger) (fd : Int) :
    ledger.LawfulDup fd ↔ ledger.DupMeets fd := by
  obtain ⟨next, code, result, succeeds, fresh⟩ := consistent.dup_spec fd
  constructor
  · rintro ⟨other, again, same, _, supplied⟩ ⟨opened, standard, room⟩
    rw [result] at same
    cases same
    have above := (succeeds.mp (supplied opened room)).2.1
    omega
  · intro meets
    refine ⟨next, code, result, fun success => ⟨(succeeds.mp success).1, fresh success⟩, ?_⟩
    intro opened room
    exact succeeds.mpr ⟨opened, by_contra fun below => meets ⟨opened, by omega, room⟩, room⟩

theorem lawfulPipe (consistent : Consistent ledger) (pipefd : Bool) : ledger.LawfulPipe pipefd := by
  obtain ⟨current, found⟩ := consistent.started
  have agrees := consistent.own found
  rw [FdLedger.LawfulPipe, sysPipe, found]
  simp only
  split
  · rename_i first second rest slots
    refine ⟨_, _, _, rfl, fun fd1 fd2 written => ?_⟩
    have order := unusedSlots_sorted slots
    obtain ⟨_, _, unused1⟩ := agrees.mem_unusedSlots.mp
      (show first ∈ unusedSlots (ledger.manager.processTable current) by simp [slots])
    obtain ⟨_, _, unused2⟩ := agrees.mem_unusedSlots.mp
      (show second ∈ unusedSlots (ledger.manager.processTable current) by simp [slots])
    cases pipefd with
    | false => cases written
    | true =>
        cases written
        rw [FdLedger.isOpen_iff, FdLedger.isOpen_iff]
        exact ⟨by omega, unused1, unused2⟩
  · exact ⟨_, _, _, rfl, by simp⟩

end Consistent

end

/-- After a run whose calls meet the condition, the next call treats the open
descriptors as it should if and only if it meets it too. -/
theorem descriptors_lawful_iff (kernelPageDir : Nat) (inputs : List Operation) (ledger : FdLedger)
    (meets : Along FdLedger.step FdLedger.Meets (FdLedger.start kernelPageDir) inputs)
    (reached : run FdLedger.step (FdLedger.start kernelPageDir) inputs = some ledger) :
    (∀ fd, ledger.LawfulClose fd ↔ ledger.CloseMeets fd) ∧
      (∀ fd, ledger.LawfulDup fd ↔ ledger.DupMeets fd) ∧
      ∀ pipefd, ledger.LawfulPipe pipefd := by
  have consistent := run_invariant Consistent meets (.start kernelPageDir)
    (fun _ _ _ consistent meets taken => consistent.step meets taken) reached
  exact ⟨consistent.lawfulClose_iff, consistent.lawfulDup_iff, consistent.lawfulPipe⟩

/-- One end of a pipe has been closed; the other one can be duplicated and
closed. -/
theorem descriptors_lawful_iff_pipe :
    ∃ ledger, run FdLedger.step (FdLedger.start 0) [.pipe true, .close 4] = some ledger ∧
      ledger.IsOpen 3 ∧ ledger.LawfulDup 3 ∧ ledger.LawfulClose 3 := by
  have meets : Along FdLedger.step FdLedger.Meets (FdLedger.start 0) [.pipe true, .close 4] := by
    refine ⟨.inl rfl, fun next taken => ⟨?_, fun _ _ => trivial⟩⟩
    obtain rfl := Option.some.inj taken
    exact .inr (.inr ⟨4, rfl, by decide⟩)
  obtain ⟨close, dup, _⟩ := descriptors_lawful_iff 0 [.pipe true, .close 4] _ meets rfl
  refine ⟨_, rfl, ?_, (dup 3).mpr fun refused => absurd refused.2.1 (by decide),
    (close 3).mpr (.inr (.inr ?_))⟩
  · exact ⟨3, rfl, by decide⟩
  · exact ⟨3, rfl, by decide⟩

/-- The descriptor of `/dev/tty` cannot be duplicated, and one that was never
returned is closed. -/
theorem terminal_not_duplicated :
    ∃ ledger, run FdLedger.step (FdLedger.start 0) [.open ⟨Fs.devTty, by decide⟩ 0 0] = some ledger ∧
      ledger.IsOpen 0 ∧ ledger.HasRoom ∧ ¬ ledger.LawfulDup 0 ∧ ¬ ledger.LawfulClose 7 := by
  refine ⟨_, rfl, ⟨0, rfl, by decide⟩, ⟨3, by decide⟩, ?_, ?_⟩
  · rintro ⟨next, code, result, _, supplied⟩
    cases result
    exact absurd (supplied ⟨0, rfl, by decide⟩ ⟨3, by decide⟩) (by decide)
  · rintro ⟨next, code, result, opened⟩
    cases result
    obtain ⟨index, same, member⟩ := opened rfl
    cases same
    exact absurd member (by decide)

end Helios.Syscall
