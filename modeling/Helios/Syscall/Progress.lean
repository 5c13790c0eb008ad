import Helios.Process.Phases
import Helios.Syscall.Runs
import Helios.Syscall.Services

namespace Helios.Syscall

open Helios.Data Helios.Interrupt Helios.Process Helios.Timer
open Helios.Terminal hiding call Call

/-! Which system calls return, from the boot sequence on. -/

def Registers.forks (regs : Registers) : Bool := regs.eax = 1

/-- The calls that stop the current process: `exit`, `waitpid` and `sleep`. -/
def Registers.stops (regs : Registers) : Bool := regs.eax = 0 || regs.eax = 7 || regs.eax = 10

/-- The handlers of those calls. -/
def Handler.stops : Handler → Bool
  | .sysExit => true
  | .sysWaitpid => true
  | .sysSleep => true
  | _ => false

/-- The call neither kills a process nor waits for keys, and leads `irq_handler`
neither to `syscall_handler` nor past `interrupt_handlers`. -/
structure SystemCall.Prompt (request : SystemCall) : Prop where
  unkilled : request.regs.eax ≠ 14
  unkeyed : request.regs.eax = 2 → request.regs.ebx ≠ 0
  inside : request.regs.eax = 12 → request.seen < 256 ∧ request.seen ≠ 0x80

/-- What the system calls keep while so many are still to come. -/
structure Going (kernel : Kernel) (stops left : Nat) : Prop where
  phase : Phase kernel.manager stops
  numbered : 0 < kernel.manager.nextPid
  room : kernel.manager.nextPid + left < 4294967296
  ends : ∃ address < 4294967296, kernel.console.memory address = 0

/-- Every fork comes after a call that stops its caller, unless there have been
such calls before. -/
def Permitted (stops : Nat) (calls : List SystemCall) : Prop :=
  ∀ before request after, calls = before ++ request :: after → request.regs.forks = true →
    stops ≠ 0 ∨ ∃ earlier ∈ before, earlier.regs.stops = true

section

variable {kernel next : Kernel} {regs : Registers} {request : SystemCall} {behind : UInt8}
variable {answers : List Nat} {seen : Nat}
variable {manager changed : ProcessManager} {stops left : Nat} {code : Int} {handler : Handler}
variable {kind : (Pcb → Pcb) → Prop} {input : Call}

theorem phase_started (phase : Phase manager stops) :
    ∃ current, manager.currentProcess = some current := by
  cases phase with
  | booted booted => exact ⟨0, booted.current⟩
  | doubled doubled => exact ⟨0, doubled.current⟩
  | healthy healthy => exact healthy.started

theorem written_phase (phase : Phase manager stops) (written : Written manager kind changed)
    (unnoticed : ∀ change, kind change → Unnoticed change) :
    Phase changed stops ∧ changed.nextPid = manager.nextPid := by
  cases written with
  | nothing => exact ⟨phase, rfl⟩
  | changed found own => exact ⟨phase.update found (unnoticed _ own), rfl⟩

theorem onlyFd_unnoticed {change : Pcb → Pcb} (own : OnlyFd change) : Unnoticed change :=
  ⟨fun pcb => by rw [own pcb], fun pcb => by rw [own pcb], fun pcb => by rw [own pcb],
    fun pcb => by rw [own pcb]⟩

theorem onlyBrk_unnoticed {change : Pcb → Pcb} (own : OnlyBrk change) : Unnoticed change :=
  ⟨fun pcb => by rw [own pcb], fun pcb => by rw [own pcb], fun pcb => by rw [own pcb],
    fun pcb => by rw [own pcb]⟩

theorem counted_numbered (numbered : 0 < manager.nextPid) (small : manager.nextPid < 4294967296) :
    Counted (2 ^ 32) manager input := fun _ _ _ => ⟨numbered, small⟩

theorem store32_zero {memory : Memory} {address other : Nat} (zero : memory other = 0) :
    memory.store32 address 0 other = 0 := by
  unfold Memory.store32
  split_ifs
  · rfl
  · rfl
  · rfl
  · rfl
  · exact zero

/-- A string ends where memory has a zero byte. -/
theorem putstrAt_returns {memory : Memory} {address distance fuel : Nat} {screen : Screen}
    (ends : memory (u32 (address + distance)) = 0) (small : address < 4294967296)
    (enough : distance < fuel) : ∃ shown, putstrAt memory fuel address screen = some shown := by
  induction fuel generalizing address distance screen with
  | zero => omega
  | succ fuel ih =>
      rw [putstrAt]
      by_cases here : memory address = 0
      · exact ⟨screen, if_pos here⟩
      · rw [if_neg here]
        cases distance with
        | zero =>
            rw [Nat.add_zero, u32_of_lt small] at ends
            exact absurd ends here
        | succ distance =>
            refine @ih (u32 (address + 1)) distance _ ?_ (u32_lt _) (by omega)
            rw [← ends]
            refine congrArg memory ?_
            simp only [u32]
            omega

theorem execve_returns {path : Nat} (small : path < 4294967296)
    (ends : ∃ address < 4294967296, kernel.console.memory address = 0) :
    ∃ console, execveNotFound kernel.console path = some console := by
  obtain ⟨address, inside, ends⟩ := ends
  have reached : kernel.console.memory (u32 (path + sub32 address path)) = 0 := by
    rw [← ends]
    refine congrArg _ ?_
    simp only [u32, sub32]
    omega
  obtain ⟨shown, shows⟩ := @putstrAt_returns _ path (sub32 address path) 4294967296
    (screenPutstr (screenSetcolor kernel.console.screen 4 0) execveMessage) reached small
    (Nat.mod_lt _ (by decide))
  exact ⟨_, Option.map_eq_some_iff.mpr ⟨shown, shows, rfl⟩⟩

/-- A call of the process table that creates a process or stops its caller. -/
theorem Going.taken (going : Going kernel stops (left + 1))
    (kind : input.creates = true ∨ input.stops = true) (fits : input.fits = true) :
    if stops = 0 ∧ input.creates = true then call kernel.manager input = none
    else ∃ next filled, call kernel.manager input = some (next, filled) ∧
      Phase next (stops + if input.stops then 1 else 0) ∧ 0 < next.nextPid ∧
      next.nextPid + left < 4294967296 := by
  have room := going.room
  have numbered := going.numbered
  have counted : Counted (2 ^ 32) kernel.manager input := counted_numbered numbered (by omega)
  have taken := going.phase.taken kind counted fits
  by_cases stuck : stops = 0 ∧ input.creates = true
  · rw [if_pos stuck] at taken ⊢
    exact taken
  · rw [if_neg stuck] at taken ⊢
    obtain ⟨next, filled, result, phase⟩ := taken
    refine ⟨next, filled, result, phase, ?_⟩
    rw [call_nextPid result]
    split
    · rw [u32_of_lt (by omega)]
      omega
    · omega

theorem lookup_stops (found : lookup initSyscalls regs.eax.toNat = some handler) :
    regs.forks = decide (handler = .sysFork) ∧ regs.stops = handler.stops := by
  have number := lookup_number found
  rw [Registers.forks, Registers.stops, number]
  cases handler <;> decide

/-- What a handler does in a phase: it hangs where a fork does, and returns
otherwise. -/
structure Proceeds (kernel : Kernel) (stops left : Nat) (handler : Handler)
    (result : Option (Kernel × Int)) : Prop where
  hangs : stops = 0 ∧ handler = .sysFork → result = none
  returns : ¬(stops = 0 ∧ handler = .sysFork) → ∃ next code, result = some (next, code) ∧
    Going next (stops + if handler.stops then 1 else 0) left

/-- A handler that leaves the process table alone, and the zero bytes of memory. -/
theorem Going.unscheduled (going : Going kernel stops (left + 1)) (idle : handler.stops = false)
    (other : handler ≠ .sysFork) (phase : Phase next.manager stops)
    (number : next.manager.nextPid = kernel.manager.nextPid)
    (memory : next.console.memory = kernel.console.memory) :
    Proceeds kernel stops left handler (some (next, code)) := by
  refine ⟨fun both => absurd both.2 other, fun _ => ⟨next, code, rfl, ?_⟩⟩
  have room := going.room
  rw [if_neg (by simp [idle])]
  exact ⟨phase, number ▸ going.numbered, by rw [number]; omega, memory ▸ going.ends⟩

/-- A handler that calls the process table. -/
theorem Going.scheduled (going : Going kernel stops (left + 1)) {result : Option (Kernel × Int)}
    (input : Call) (kind : input.creates = true ∨ input.stops = true)
    (creates : input.creates = decide (handler = .sysFork)) (stopped : input.stops = handler.stops)
    (fits : input.fits = true) (stuck : call kernel.manager input = none → result = none)
    (goes : ∀ manager filled, call kernel.manager input = some (manager, filled) →
      ∃ next code, result = some (next, code) ∧ next.manager = manager ∧
        ∃ address < 4294967296, next.console.memory address = 0) :
    Proceeds kernel stops left handler result := by
  have taken := going.taken kind fits
  have same : stops = 0 ∧ input.creates = true ↔ stops = 0 ∧ handler = .sysFork := by
    rw [creates, decide_eq_true_iff]
  refine ⟨fun hangs => ?_, fun returns => ?_⟩
  · rw [if_pos (same.mpr hangs)] at taken
    exact stuck taken
  · rw [if_neg fun hangs => returns (same.mp hangs)] at taken
    obtain ⟨manager, filled, called, phase, numbered, room⟩ := taken
    obtain ⟨next, code, rfl, rfl, ends⟩ := goes manager filled called
    exact ⟨next, code, rfl, stopped ▸ phase, numbered, room, ends⟩

theorem sysClose_returns {current : Slot} {fd : Int} (started : manager.currentProcess = some current) :
    ∃ next code, sysClose manager fd = some (next, code) := by
  unfold sysClose
  split
  · exact ⟨manager, -1, rfl⟩
  · rw [started]
    exact ⟨_, 0, rfl⟩

theorem sysBrk_returns {current : Slot} {addr : Nat} (started : manager.currentProcess = some current) :
    ∃ next code, sysBrk manager addr = some (next, code) := by
  unfold sysBrk
  rw [started]
  by_cases query : addr = 0
  · exact ⟨manager, _, if_pos query⟩
  · exact ⟨_, 0, if_neg query⟩

theorem Going.call (going : Going kernel stops (left + 1)) (prompt : SystemCall.Prompt ⟨regs, seen⟩)
    (found : lookup initSyscalls regs.eax.toNat = some handler) :
    ∃ result, (handler.call behind seen kernel regs answers).result = some (result, answers) ∧
      Proceeds kernel stops left handler result := by
  have number := lookup_number found
  obtain ⟨current, started⟩ := phase_started going.phase
  cases handler with
  | sysExit =>
      refine ⟨_, rfl, going.scheduled (.exitProcess regs.ebx.toInt) (.inr rfl) rfl rfl rfl
        (fun stuck => ?_) fun manager filled called => ?_⟩
      · rw [Syscall.sysExit, Option.map_eq_none_iff.mp stuck]
        rfl
      · obtain ⟨after, exits, same⟩ := Option.map_eq_some_iff.mp called
        cases same
        rw [Syscall.sysExit, exits]
        exact ⟨_, _, rfl, rfl, going.ends⟩
  | sysFork =>
      refine ⟨_, rfl, going.scheduled .forkProcess (.inl rfl) rfl rfl rfl
        (fun stuck => ?_) fun manager filled called => ?_⟩
      · rw [Syscall.sysFork, show forkProcess kernel.manager = none from stuck]
        rfl
      · rw [Syscall.sysFork, show forkProcess kernel.manager = some (manager, filled) from called]
        exact ⟨_, _, rfl, rfl, going.ends⟩
  | sysRead =>
      have other : regs.ebx.toInt ≠ 0 := fun zero =>
        prompt.unkeyed number (BitVec.eq_of_toInt_eq zero)
      refine ⟨some (kernel, -1), ?_, going.unscheduled rfl (by decide) going.phase rfl rfl⟩
      rw [Handler.call, Syscall.sysRead, if_neg other]
      rfl
  | sysWrite =>
      refine ⟨_, rfl, going.unscheduled rfl (by decide) going.phase rfl ?_⟩
      exact sysWrite_keeps.1
  | sysOpen => exact ⟨_, rfl, going.unscheduled rfl (by decide) going.phase rfl rfl⟩
  | sysClose =>
      obtain ⟨next, code, closes⟩ := @sysClose_returns _ _ regs.ebx.toInt started
      obtain ⟨phase, number⟩ := written_phase going.phase (sysClose_writes closes)
        fun _ => onlyFd_unnoticed
      refine ⟨some ({ kernel with manager := next }, code), ?_,
        going.unscheduled rfl (by decide) phase number rfl⟩
      rw [Handler.call, closes]
      rfl
  | sysExecve =>
      obtain ⟨console, failed⟩ := @execve_returns kernel regs.ebx.toNat regs.ebx.isLt going.ends
      refine ⟨some ({ kernel with console }, -1), ?_,
        going.unscheduled rfl (by decide) going.phase rfl (execveNotFound_keeps failed).1⟩
      rw [Handler.call, execve, failed]
      rfl
  | sysWaitpid =>
      refine ⟨_, rfl, going.scheduled (.waitProcess regs.ebx.toInt) (.inr rfl) rfl rfl rfl
        (fun stuck => ?_) fun manager filled called => ?_⟩
      · rw [Kernel.waitpid, Syscall.sysWaitpid, Option.map_eq_none_iff.mp stuck]
        rfl
      · obtain ⟨after, waits, same⟩ := Option.map_eq_some_iff.mp called
        cases same
        rw [Kernel.waitpid, Syscall.sysWaitpid, waits]
        obtain ⟨address, small, zero⟩ := going.ends
        refine ⟨_, _, rfl, rfl, address, small, ?_⟩
        by_cases null : regs.ecx.toNat = 0
        · simpa [null] using zero
        · simpa [null] using store32_zero zero
  | sysBrk =>
      obtain ⟨next, code, moves⟩ := @sysBrk_returns _ _ regs.ebx.toNat started
      obtain ⟨phase, number⟩ := written_phase going.phase (sysBrk_writes moves)
        fun _ => onlyBrk_unnoticed
      refine ⟨some ({ kernel with manager := next }, code), ?_,
        going.unscheduled rfl (by decide) phase number rfl⟩
      rw [Handler.call, moves]
      rfl
  | sysGetpid => exact ⟨_, rfl, going.unscheduled rfl (by decide) going.phase rfl rfl⟩
  | sysSleep =>
      refine ⟨_, rfl, going.scheduled (.sleepProcess regs.ebx.toNat) (.inr rfl) rfl rfl rfl
        (fun stuck => ?_) fun manager filled called => ?_⟩
      · rw [Syscall.sysSleep, Option.map_eq_none_iff.mp stuck]
        rfl
      · obtain ⟨after, sleeps, same⟩ := Option.map_eq_some_iff.mp called
        cases same
        rw [Syscall.sysSleep, sleeps]
        exact ⟨_, _, rfl, rfl, going.ends⟩
  | sysGettime => exact ⟨_, rfl, going.unscheduled rfl (by decide) going.phase rfl rfl⟩
  | sysYield =>
      refine ⟨some ({ kernel with timer := applyHandler timerHandlers kernel.timer seen }, 0), ?_,
        going.unscheduled rfl (by decide) going.phase rfl rfl⟩
      rw [Handler.call, yield, if_pos (prompt.inside number), Port.bind_finished irqHandler_result]
      rfl
  | sysSbrk =>
      obtain ⟨next, code, moves⟩ : ∃ next code,
          sysSbrk kernel.manager regs.ebx.toInt = some (next, code) := by
        simp [Syscall.sysSbrk, started]
      obtain ⟨phase, number⟩ := written_phase going.phase (sysSbrk_writes moves)
        fun _ => onlyBrk_unnoticed
      refine ⟨some ({ kernel with manager := next }, code), ?_,
        going.unscheduled rfl (by decide) phase number rfl⟩
      rw [Handler.call, moves]
      rfl
  | sysKill => exact absurd number prompt.unkilled

theorem lookup_known (known : regs.forks = true ∨ regs.stops = true) :
    lookup initSyscalls regs.eax.toNat ≠ none := by
  simp only [Registers.forks, Registers.stops, Bool.or_eq_true, decide_eq_true_eq] at known
  rw [lookup_initSyscalls]
  rcases known with eax | (eax | eax) | eax <;> rw [eax] <;> exact nofun

theorem Going.step (going : Going kernel stops (left + 1))
    (prompt : SystemCall.Prompt ⟨regs, seen⟩) :
    if stops = 0 ∧ regs.forks = true then
      (syscallHandler behind seen kernel regs answers).result = some (none, answers)
    else ∃ next reply,
      (syscallHandler behind seen kernel regs answers).result = some (some (next, reply), answers) ∧
        Going next (stops + if regs.stops then 1 else 0) left := by
  unfold syscallHandler
  cases found : lookup initSyscalls regs.eax.toNat with
  | none =>
      have unforked : ¬(stops = 0 ∧ regs.forks = true) := by
        intro both
        exact lookup_known (.inl both.2) found
      have unstopped : ¬regs.stops = true := fun stops => lookup_known (.inr stops) found
      rw [if_neg unforked, if_neg unstopped]
      have room := going.room
      exact ⟨kernel, _, rfl, going.phase, going.numbered, by omega, going.ends⟩
  | some handler =>
      obtain ⟨forks, stopped⟩ := lookup_stops found
      obtain ⟨result, called, proceeds⟩ := @Going.call _ _ behind answers _ _ _ _ going prompt found
      simp only [Port.bind_finished called, forks, decide_eq_true_iff, stopped]
      by_cases hangs : stops = 0 ∧ handler = .sysFork
      · rw [if_pos hangs, proceeds.hangs hangs]
        rfl
      · obtain ⟨next, code, rfl, going⟩ := proceeds.returns hangs
        rw [if_neg hangs]
        exact ⟨next, _, rfl, going⟩

theorem permitted_cons {calls : List SystemCall} : Permitted stops (request :: calls) ↔
    ¬(stops = 0 ∧ request.regs.forks = true) ∧
      Permitted (stops + if request.regs.stops then 1 else 0) calls := by
  constructor
  · refine fun permitted => ⟨fun both => ?_, fun before other after split forks => ?_⟩
    · rcases permitted [] request calls rfl both.2 with some | ⟨earlier, member, _⟩
      · exact some both.1
      · cases member
    · rcases permitted (request :: before) other after (congrArg _ split) forks with
        some | ⟨earlier, member, stopped⟩
      · exact .inl (by omega)
      · cases List.mem_cons.mp member with
        | inl same =>
            rw [if_pos (same ▸ stopped)]
            exact .inl (Nat.succ_ne_zero _)
        | inr later => exact .inr ⟨earlier, later, stopped⟩
  · rintro ⟨here, later⟩ before other after split forks
    cases before with
    | nil =>
        obtain ⟨rfl, -⟩ := List.cons.inj split
        exact .inl fun zero => here ⟨zero, forks⟩
    | cons first before =>
        obtain ⟨rfl, rest⟩ := List.cons.inj split
        by_cases stopped : request.regs.stops = true
        · exact .inr ⟨request, List.mem_cons_self, stopped⟩
        · rw [if_neg stopped, Nat.add_zero] at later
          refine (later before other after rest forks).imp id fun ⟨earlier, member, stopped⟩ => ?_
          exact ⟨earlier, List.mem_cons_of_mem _ member, stopped⟩

/-- A run of system calls hangs in a fork before the first stop, or returns. -/
theorem Going.run {calls : List SystemCall} (going : Going kernel stops calls.length)
    (prompt : ∀ request ∈ calls, request.Prompt) :
    Permitted stops calls ∧ (∃ final replies,
        (syscalls behind kernel calls answers).result = some (some (final, replies), answers) ∧
          Phase final.manager (stops + calls.countP fun request => request.regs.stops)) ∨
      ¬Permitted stops calls ∧ (syscalls behind kernel calls answers).result = some (none, answers) := by
  induction calls generalizing kernel stops with
  | nil =>
      refine .inl ⟨fun before regs after split => ?_, kernel, [], rfl, going.phase⟩
      cases before <;> cases split
  | cons request calls ih =>
      have taken := @Going.step _ _ behind answers _ _ _ going (prompt request List.mem_cons_self)
      rw [permitted_cons, syscalls]
      by_cases hangs : stops = 0 ∧ request.regs.forks = true
      · rw [if_pos hangs] at taken
        rw [Port.bind_finished taken]
        exact .inr ⟨fun both => both.1 hangs, rfl⟩
      · rw [if_neg hangs] at taken
        obtain ⟨next, reply, returned, going⟩ := taken
        rw [Port.bind_finished returned]
        rcases ih going (fun other member => prompt other (List.mem_cons_of_mem _ member)) with
          ⟨permitted, final, replies, rested, phase⟩ | ⟨refused, stuck⟩
        · refine .inl ⟨⟨hangs, permitted⟩, final, reply :: replies, ?_, ?_⟩
          · simp only [Port.bind_finished rested]
            rfl
          · rw [List.countP_cons, Nat.add_comm (calls.countP _), ← Nat.add_assoc]
            exact phase
        · refine .inr ⟨fun both => refused both.2, ?_⟩
          simp only [Port.bind_finished stuck]
          rfl

end

/-- After the boot sequence of `kernel_main` a run of system calls that kill
nothing and wait for no key, and whose yields lead `irq_handler` neither to
`syscall_handler` nor past its table, returns if and only if an `exit`, a `waitpid` or a
`sleep` comes before the first `fork`; after two of these the process table is
in order. -/
theorem booted_calls_return_iff (behind : UInt8) (kernelPageDir stackTop : Nat) (timer : Counter)
    (console : Console) (calls : List SystemCall) (answers : List Nat)
    (ends : ∃ address < 4294967296, console.memory address = 0)
    (prompt : ∀ request ∈ calls, request.Prompt) (short : calls.length < 2 ^ 32 - 2) :
    ∃ booted, bootProcesses kernelPageDir stackTop = some booted ∧
      ((∃ final replies, (syscalls behind ⟨booted, timer, console⟩ calls answers).result =
          some (some (final, replies), answers)) ↔
        ∀ before request after, calls = before ++ request :: after → request.regs.forks = true →
          ∃ earlier ∈ before, earlier.regs.stops = true) ∧
      ∀ final replies rest, (syscalls behind ⟨booted, timer, console⟩ calls answers).result =
          some (some (final, replies), rest) → 2 ≤ (calls.countP fun request => request.regs.stops) →
        ∃ queue, Healthy final.manager queue := by
  obtain ⟨booted, boots⟩ : ∃ booted, bootProcesses kernelPageDir stackTop = some booted :=
    ⟨_, bootProcesses_eq kernelPageDir stackTop⟩
  have number := (boot_start boots).1
  have going : Going ⟨booted, timer, console⟩ 0 calls.length :=
    ⟨.booted (boot_booted boots), by rw [number]; omega, by rw [number]; omega, ends⟩
  have permitted : Permitted 0 calls ↔ ∀ before request after,
      calls = before ++ request :: after → request.regs.forks = true →
        ∃ earlier ∈ before, earlier.regs.stops = true := by
    simp [Permitted]
  refine ⟨booted, boots, ?_⟩
  rw [← permitted]
  rcases @Going.run _ behind answers _ _ going prompt with
    ⟨allowed, final, replies, returned, phase⟩ | ⟨refused, stuck⟩
  · refine ⟨iff_of_true ⟨final, replies, returned⟩ allowed, fun other others rest same twice => ?_⟩
    rw [returned] at same
    cases same
    rw [Nat.zero_add] at phase
    obtain ⟨more, count⟩ := Nat.exists_eq_add_of_le' twice
    rw [count] at phase
    cases phase with
    | healthy healthy => exact ⟨_, healthy⟩
  · refine ⟨iff_of_false (fun ⟨final, replies, returned⟩ => ?_) refused, fun other others rest same => ?_⟩
    · rw [stuck] at returned
      cases returned
    · rw [stuck] at same
      cases same

/-- The shell sleeps, forks, yields and exits. -/
theorem booted_calls_return_iff_sleep :
    let console : Console := ⟨fun _ => 0, ⟨fun _ => 0, 7, 0, 0, 0, fun _ => 0⟩⟩
    let calls : List SystemCall := [⟨⟨10, 0, 0, 0, 0, 0⟩, 0⟩, ⟨⟨1, 0, 0, 0, 0, 0⟩, 0⟩,
      ⟨⟨12, 0, 0, 0, 0, 0⟩, 0⟩, ⟨⟨0, 3, 0, 0, 0, 0⟩, 0⟩]
    ∃ booted final replies queue, bootProcesses 0 0 = some booted ∧
      (syscalls 0 ⟨booted, ⟨0, 100, 10⟩, console⟩ calls []).result =
        some (some (final, replies), []) ∧ Healthy final.manager queue := by
  intro console calls
  obtain ⟨booted, boots, returns, order⟩ := booted_calls_return_iff 0 0 0 ⟨0, 100, 10⟩ console calls []
    ⟨0, by decide, rfl⟩
    (by
      intro request member
      simp only [calls, List.mem_cons, List.not_mem_nil, or_false] at member
      rcases member with rfl | rfl | rfl | rfl <;> exact ⟨by decide, by decide, by decide⟩)
    (by decide)
  obtain ⟨final, replies, returned⟩ := returns.mpr fun before request after split forks => by
    cases before with
    | nil =>
        obtain ⟨rfl, -⟩ := List.cons.inj split
        cases forks
    | cons first before =>
        obtain ⟨rfl, -⟩ := List.cons.inj split
        exact ⟨_, List.mem_cons_self, by decide⟩
  obtain ⟨queue, healthy⟩ := order final replies [] returned (by decide)
  exact ⟨booted, final, replies, queue, boots, returned, healthy⟩

end Helios.Syscall
