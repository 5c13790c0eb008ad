import Helios.Pmm.Frames
import Helios.Syscall.Runs

namespace Helios.Syscall

open Helios.Data Helios.Process ProcessManager

/-! The program break of a process, as its own calls move it. -/

/-- A call that moves the break. -/
inductive Move where
  | brk (addr : Nat)
  | sbrk (increment : Int)
deriving Repr, DecidableEq

/-- The break a process is given, and its calls since. -/
structure BreakLog where
  start : Nat
  moves : List Move
deriving Repr, DecidableEq

def Move.apply (brk : Nat) : Move → Nat
  | .brk addr => if addr = 0 then brk else u32 addr
  | .sbrk increment => moveBreak brk increment

def BreakLog.value (log : BreakLog) : Nat := log.moves.foldl Move.apply log.start

def BreakLog.add (log : BreakLog) (move : Move) : BreakLog :=
  { log with moves := log.moves ++ [move] }

/-- A state with the log of the process in each slot. -/
structure BreakLedger where
  manager : ProcessManager
  logs : Slot → BreakLog

/-- A created process is given `0x100000`, a forked one what its parent has; one
that is forked into the slot of its parent finds the slot cleared. -/
def inherited (ledger : BreakLedger) (slot : Slot) : Call → BreakLog
  | .forkProcess =>
      match ledger.manager.currentProcess with
      | none => ⟨0, []⟩
      | some current => if current = slot then ⟨0, []⟩ else ledger.logs current
  | _ => ⟨0x100000, []⟩

def recordMove (ledger : BreakLedger) (move : Move) : Slot → BreakLog :=
  match ledger.manager.currentProcess with
  | none => ledger.logs
  | some current => Function.update ledger.logs current ((ledger.logs current).add move)

def recordBreak (ledger : BreakLedger) : Operation → Reply → Slot → BreakLog
  | .process input, .filled (some slot) =>
      Function.update ledger.logs slot (inherited ledger slot input)
  | .brk addr, _ => recordMove ledger (.brk addr)
  | .sbrk increment, _ => recordMove ledger (.sbrk increment)
  | _, _ => ledger.logs

namespace BreakLedger

def start (kernelPageDir : Nat) : BreakLedger :=
  ⟨initProcessManager kernelPageDir, fun slot => ⟨if slot = 0 then 0x100000 else 0, []⟩⟩

def step (ledger : BreakLedger) (input : Operation) : Option BreakLedger :=
  (handle ledger.manager input).map fun (next, reply) => ⟨next, recordBreak ledger input reply⟩

/-- The log of every process leads to its break. -/
structure Kept (ledger : BreakLedger) : Prop where
  exact : ∀ slot, (ledger.manager.processTable slot).brk = (ledger.logs slot).value
  small : ∀ slot, (ledger.logs slot).value < 4294967296

end BreakLedger

/-- The end of the memory that `init_pmm` reserves for the BIOS, the kernel and the bitmap. -/
def lowMemory (totalPages : Nat) : Nat := 0x200000 + Pmm.bitmapSize totalPages * 4

/-- The range from the address that was returned is what the break was moved by,
without a wrap, and no byte of it is in low memory. -/
structure SafeRange (totalPages : Nat) (code increment : Int) (brk : Nat) : Prop where
  exact : (brk : Int) = code % 4294967296 + increment
  apart : ∀ address : Nat, code % 4294967296 ≤ address → (address : Int) < code % 4294967296 + increment →
    lowMemory totalPages ≤ address

section

variable {ledger next : BreakLedger} {input : Operation}

theorem brk_aside : Aside fun pcb => pcb.brk := ⟨fun _ _ => rfl, fun _ _ => rfl, fun _ _ => rfl⟩

theorem value_add (log : BreakLog) (move : Move) : (log.add move).value = move.apply log.value := by
  simp [BreakLog.value, BreakLog.add]

theorem OnlyFd.brk {change : Pcb → Pcb} (own : OnlyFd change) (pcb : Pcb) :
    (change pcb).brk = pcb.brk := by
  rw [own pcb]

theorem signed_emod {word : Nat} (small : word < 4294967296) : signed word % 4294967296 = word := by
  simp only [signed]
  split
  · omega
  · omega

theorem Move.apply_lt {brk : Nat} {move : Move} (small : brk < 4294967296) :
    move.apply brk < 4294967296 := by
  cases move with
  | brk addr =>
      simp only [Move.apply]
      split
      · exact small
      · exact u32_lt addr
  | sbrk increment =>
      simp only [Move.apply, moveBreak]
      omega

namespace BreakLedger.Kept

theorem start (kernelPageDir : Nat) : (BreakLedger.start kernelPageDir).Kept := by
  constructor
  · intro slot
    by_cases idle : slot = 0
    · simp [BreakLedger.start, initProcessManager, BreakLog.value, idle]
    · simp [BreakLedger.start, initProcessManager, BreakLog.value, idle]
  · intro slot
    simp only [BreakLedger.start, BreakLog.value, List.foldl_nil]
    split
    · decide
    · decide

theorem inherited_small (kept : ledger.Kept) (slot : Slot) (input : Call) :
    (inherited ledger slot input).value < 4294967296 := by
  have created : (⟨0x100000, []⟩ : BreakLog).value < 4294967296 := by decide
  cases input with
  | forkProcess =>
      simp only [inherited]
      split
      · decide
      · split
        · decide
        · exact kept.small _
  | _ => exact created

theorem called {manager : ProcessManager} {input : Call} {filled : Option Slot}
    (kept : ledger.Kept) (result : call ledger.manager input = some (manager, filled)) :
    (⟨manager, recordBreak ledger (.process input) (.filled filled)⟩ : BreakLedger).Kept := by
  cases filled with
  | none => exact ⟨fun other => (call_aside brk_aside result other nofun).trans (kept.exact other), kept.small⟩
  | some slot =>
      obtain ⟨pcb, filling, same⟩ := filled_aside brk_aside result
      have given : pcb.brk = (inherited ledger slot input).value := by
        obtain ⟨_, _, _, _, _, shape, block⟩ | ⟨current, _, shape, found, block⟩ := filling
        · subst shape block
          rfl
        · subst shape block
          simp only [forkPcb, inherited, found]
          by_cases own : current = slot
          · subst own
            simp [clearSlot, emptyPcb, BreakLog.value]
          · rw [if_neg own, clearSlot, update_other own]
            exact kept.exact current
      constructor
      · intro other
        by_cases here : other = slot
        · subst here
          simp only [recordBreak, Function.update_self]
          exact same.trans given
        · simp only [recordBreak, Function.update_of_ne here]
          rw [call_aside brk_aside result other fun taken => here (Option.some.inj taken).symm]
          exact kept.exact other
      · intro other
        by_cases here : other = slot
        · subst here
          simp only [recordBreak, Function.update_self]
          exact kept.inherited_small other input
        · simp only [recordBreak, Function.update_of_ne here]
          exact kept.small other

theorem moved {manager : ProcessManager} {current : Slot} {move : Move} (kept : ledger.Kept)
    (found : ledger.manager.currentProcess = some current)
    (here : (manager.processTable current).brk =
      move.apply (ledger.manager.processTable current).brk)
    (others : ∀ slot, slot ≠ current →
      manager.processTable slot = ledger.manager.processTable slot) :
    (⟨manager, recordMove ledger move⟩ : BreakLedger).Kept := by
  constructor
  · intro slot
    by_cases same : slot = current
    · subst same
      simp only [recordMove, found, Function.update_self, value_add, here, kept.exact slot]
    · simp only [recordMove, found, Function.update_of_ne same, others slot same, kept.exact slot]
  · intro slot
    by_cases same : slot = current
    · subst same
      simp only [recordMove, found, Function.update_self, value_add]
      exact Move.apply_lt (kept.small slot)
    · simp only [recordMove, found, Function.update_of_ne same]
      exact kept.small slot

theorem described {manager : ProcessManager} (kept : ledger.Kept)
    (written : Written ledger.manager OnlyFd manager) :
    (⟨manager, ledger.logs⟩ : BreakLedger).Kept := by
  refine ⟨fun slot => ?_, kept.small⟩
  exact (written.field_eq (fun _ => OnlyFd.brk) slot).trans (kept.exact slot)

theorem step (kept : ledger.Kept) (taken : ledger.step input = some next) : next.Kept := by
  obtain ⟨⟨manager, reply⟩, handled, same⟩ := Option.map_eq_some_iff.mp taken
  subst same
  cases input with
  | process input =>
      obtain ⟨⟨after, filled⟩, result, same⟩ := Option.map_eq_some_iff.mp handled
      cases same
      exact kept.called result
  | «open» path flags mode =>
      cases handled
      exact kept
  | close fd =>
      obtain ⟨⟨after, code⟩, closed, same⟩ := Option.map_eq_some_iff.mp handled
      cases same
      exact kept.described (sysClose_writes closed)
  | dup oldfd =>
      obtain ⟨⟨after, code⟩, copied, same⟩ := Option.map_eq_some_iff.mp handled
      cases same
      exact kept.described (sysDup_writes copied)
  | pipe pipefd =>
      obtain ⟨⟨after, code, written⟩, piped, same⟩ := Option.map_eq_some_iff.mp handled
      cases same
      exact kept.described (sysPipe_writes piped)
  | brk addr =>
      obtain ⟨⟨after, code⟩, result, same⟩ := Option.map_eq_some_iff.mp handled
      cases same
      cases found : ledger.manager.currentProcess with
      | none => simp [sysBrk, found] at result
      | some current =>
          by_cases zero : addr = 0
          · simp only [sysBrk, found, zero, if_true, Option.some.injEq, Prod.mk.injEq] at result
            rw [← result.1]
            exact kept.moved found (by simp [Move.apply, zero]) fun _ _ => rfl
          · simp only [sysBrk, found, zero, if_false, Option.some.injEq, Prod.mk.injEq] at result
            rw [← result.1]
            exact kept.moved found (by simp [Move.apply, zero]) fun _ other => update_other other
  | sbrk increment =>
      obtain ⟨⟨after, code⟩, result, same⟩ := Option.map_eq_some_iff.mp handled
      cases same
      cases found : ledger.manager.currentProcess with
      | none => simp [sysSbrk, found] at result
      | some current =>
          simp only [sysSbrk, found, Option.some.injEq, Prod.mk.injEq] at result
          rw [← result.1]
          exact kept.moved found (by simp [Move.apply]) fun _ other => update_other other
  | waitpid pid status options =>
      obtain ⟨⟨after, code, written⟩, waited, same⟩ := Option.map_eq_some_iff.mp handled
      cases same
      exact kept.called (sysWaitpid_calls waited)

theorem step_started (kept : ledger.Kept)
    (started : ∃ current, ledger.manager.currentProcess = some current)
    (taken : ledger.step input = some next) :
    next.Kept ∧ ∃ current, next.manager.currentProcess = some current := by
  refine ⟨kept.step taken, ?_⟩
  obtain ⟨current, found⟩ := started
  obtain ⟨⟨manager, reply⟩, handled, same⟩ := Option.map_eq_some_iff.mp taken
  subst same
  exact (handle_effect handled).started found

end BreakLedger.Kept

/-- The bytes of low memory are in pages that `init_pmm` reserves. -/
theorem lowMemory_reserved {contents : Bitmap} {totalMemoryKb address : Nat}
    (low : address < lowMemory (Pmm.initPmm contents totalMemoryKb).totalPages) :
    (Pmm.initPmm contents totalMemoryKb).bitmap.test (address / Pmm.pageSize) = true := by
  have pages : (Pmm.initPmm contents totalMemoryKb).totalPages ≤ 1048576 := by
    have word := u32_lt (totalMemoryKb * 1024)
    rw [Pmm.initPmm_totalPages]
    omega
  have inside : address / Pmm.pageSize <
      Pmm.reservedPages (Pmm.initPmm contents totalMemoryKb).totalPages := by
    simp only [lowMemory, Pmm.bitmapSize_eq pages] at low
    simp only [Pmm.reservedPages, Pmm.bitmapPages, Pmm.bitmapSize_eq pages, Pmm.pageSize]
    rw [u32_of_lt (by omega)]
    omega
  rw [Pmm.test_initPmm, decide_eq_true inside, Bool.true_or]

/-- Where `sys_sbrk` starts and how far it moves the break. -/
theorem safeRange_iff {totalPages brk : Nat} {increment : Int} (small : brk < 4294967296)
    (positive : 0 < increment) : SafeRange totalPages (signed brk) increment (moveBreak brk increment) ↔
      lowMemory totalPages ≤ brk ∧ brk + increment < 4294967296 := by
  have start := signed_emod small
  constructor
  · rintro ⟨exact, apart⟩
    rw [start] at exact apart
    refine ⟨apart brk le_rfl (by omega), ?_⟩
    simp only [moveBreak] at exact
    omega
  · rintro ⟨above, inside⟩
    refine ⟨?_, fun address from_start _ => ?_⟩
    · rw [start, moveBreak]
      omega
    · rw [start] at from_start
      omega

end

/-- After any run, the range that the next `sys_sbrk` hands out is safe if and
only if the break that the caller's own calls have left is above low memory and
the increment does not take it past the end of the address space. -/
theorem sbrk_safe_iff (kernelPageDir : Nat) (inputs : List Operation) (ledger : BreakLedger)
    (reached : run BreakLedger.step (BreakLedger.start kernelPageDir) inputs = some ledger)
    (contents : Bitmap) (totalMemoryKb : Nat) (increment : Int) (positive : 0 < increment) :
    ∃ current next code, ledger.manager.currentProcess = some current ∧
      sysSbrk ledger.manager increment = some (next, code) ∧
      (SafeRange (Pmm.initPmm contents totalMemoryKb).totalPages code increment
          (next.processTable current).brk ↔
        lowMemory (Pmm.initPmm contents totalMemoryKb).totalPages ≤ (ledger.logs current).value ∧
          (ledger.logs current).value + increment < 4294967296) := by
  have everywhere : Along BreakLedger.step (fun _ _ => True) (BreakLedger.start kernelPageDir) inputs :=
    .of_forall fun _ _ _ => trivial
  obtain ⟨kept, current, found⟩ := run_invariant
    (fun ledger => ledger.Kept ∧ ∃ current, ledger.manager.currentProcess = some current) everywhere
    ⟨.start kernelPageDir, 0, rfl⟩ (fun _ _ _ invariant _ taken => invariant.1.step_started invariant.2 taken)
    reached
  refine ⟨current, _, _, found, by rw [sysSbrk, found], ?_⟩
  rw [update_same]
  simp only [kept.exact current]
  exact safeRange_iff (kept.small current) positive

theorem lowMemory_eight_megabytes (contents : Bitmap) :
    lowMemory (Pmm.initPmm contents 8192).totalPages = 0x200100 := by
  rw [Pmm.initPmm_totalPages]
  decide

/-- A process that has moved its break to 16 MB. -/
theorem sbrk_safe_iff_moved :
    ∃ ledger next code, run BreakLedger.step (BreakLedger.start 0)
        [.process (.createProcess [97] 4096 8192), .process .schedulerGetNext, .brk 0x1000000] =
        some ledger ∧
      sysSbrk ledger.manager 4096 = some (next, code) ∧
      SafeRange (Pmm.initPmm (fun _ => 0) 8192).totalPages code 4096 (next.processTable 0).brk := by
  obtain ⟨current, next, code, found, result, safe⟩ := sbrk_safe_iff 0
    [.process (.createProcess [97] 4096 8192), .process .schedulerGetNext, .brk 0x1000000] _ rfl
    (fun _ => 0) 8192 4096 (by decide)
  cases found
  refine ⟨_, next, code, rfl, result, safe.mpr ⟨?_, by decide⟩⟩
  rw [lowMemory_eight_megabytes]
  decide

/-- The first range that a new process is given is the kernel's. -/
theorem first_range_overlaps_kernel :
    ∃ ledger next, run BreakLedger.step (BreakLedger.start 0)
        [.process (.createProcess [97] 4096 8192), .process .schedulerGetNext] = some ledger ∧
      sysSbrk ledger.manager 4096 = some (next, 0x100000) ∧
      ¬ SafeRange (Pmm.initPmm (fun _ => 0) 8192).totalPages 0x100000 4096
        (next.processTable 0).brk := by
  refine ⟨_, _, rfl, rfl, fun safe => ?_⟩
  have above := safe.apart 0x100000 (by decide) (by decide)
  rw [lowMemory_eight_megabytes] at above
  exact absurd above (by decide)

end Helios.Syscall
