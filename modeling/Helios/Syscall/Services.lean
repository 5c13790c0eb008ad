import Helios.Syscall.Kernel
import Helios.Syscall.Keyboard
import Helios.Terminal.Bounds

namespace Helios.Syscall

open Helios.Data Helios.Interrupt Helios.Process Helios.Strings Helios.Timer
open Helios.Terminal hiding call

/-! What a system call does, whatever is in the registers. -/

/-- The addresses that a call may write: the buffer of `sys_read`, and what the
`status` of `sys_waitpid` points to. -/
def Writes (regs : Registers) (address : Nat) : Prop :=
  regs.eax = 2 ∧ regs.ecx.toNat ≤ address ∧ address < regs.ecx.toNat + regs.edx.toNat ∨
    regs.eax = 7 ∧ regs.ecx ≠ 0 ∧ regs.ecx.toNat ≤ address ∧ address < regs.ecx.toNat + 4

/-- The call is a `yield` for which `irq_handler` reads its vector. -/
def SystemCall.ticks (request : SystemCall) : Bool := request.regs.eax = 12 ∧ request.seen = 32

/-- A call that left `next` took at most a step of the process table, kept the
cursor on the screen, ticked the clock if it was such a `yield`, and wrote no
memory but that of its arguments. -/
structure Serviced (kernel : Kernel) (regs : Registers) (seen : Nat) (next : Kernel) : Prop where
  manager : next.manager = kernel.manager ∨
    ∃ input, step kernel.manager input = some next.manager
  timer : next.timer = timerCallback^[if SystemCall.ticks ⟨regs, seen⟩ then 1 else 0] kernel.timer
  screen : Inside kernel.console.screen → Inside next.console.screen
  memory : ∀ address, ¬Writes regs address →
    next.console.memory address = kernel.console.memory address

section

variable {kernel next final : Kernel} {regs reply : Registers} {behind : UInt8} {seen : Nat}
variable {answers rest : List Nat} {code : Int} {handler : Handler} {input : Operation}
variable {manager : ProcessManager} {result : Option (ProcessManager × Int)}
variable {console after : Console} {fd : Int} {buf count : Nat}

theorem lookup_number (found : lookup initSyscalls regs.eax.toNat = some handler) :
    regs.eax = BitVec.ofNat 32 handler.number := by
  rw [lookup_initSyscalls] at found
  obtain ⟨inside, same⟩ := List.getElem?_eq_some_iff.mp found
  have number : handler.number = regs.eax.toNat := by
    rw [Handler.number, ← same]
    exact List.Nodup.idxOf_getElem (by decide) _ inside
  rw [number, BitVec.ofNat_toNat, BitVec.setWidth_eq]

theorem unticked (other : regs.eax ≠ 12) : (if SystemCall.ticks ⟨regs, seen⟩ then 1 else 0) = 0 := by
  simpa [SystemCall.ticks] using fun yields => absurd yields other

/-- A handler that works on the process table alone. -/
theorem Serviced.process (other : regs.eax ≠ 12) (taken : next.manager = kernel.manager ∨
      ∃ input, step kernel.manager input = some next.manager)
    (timer : next.timer = kernel.timer) (console : next.console = kernel.console) :
    Serviced kernel regs seen next where
  manager := taken
  timer := by rw [unticked other, timer]; rfl
  screen := by rw [console]; exact id
  memory _ _ := by rw [console]

theorem process_serviced (other : regs.eax ≠ 12)
    (stepped : ∀ manager code, result = some (manager, code) →
      ∃ input, step kernel.manager input = some manager)
    (returned : kernel.process result = some (next, code)) : Serviced kernel regs seen next := by
  obtain ⟨⟨manager, value⟩, found, same⟩ := Option.map_eq_some_iff.mp returned
  obtain ⟨rfl, -⟩ := Prod.mk.inj same
  exact .process other (.inr (stepped manager value found)) rfl rfl

theorem console_serviced (other : regs.eax ≠ 12) (manager : next.manager = kernel.manager)
    (timer : next.timer = kernel.timer)
    (screen : Inside kernel.console.screen → Inside next.console.screen)
    (memory : ∀ address, ¬Writes regs address →
      next.console.memory address = kernel.console.memory address) : Serviced kernel regs seen next where
  manager := .inl manager
  timer := by rw [unticked other, timer]; rfl
  screen := screen
  memory := memory

theorem putBytes_inside {memory : Memory} {screen : Screen} (inside : Inside screen) :
    Inside (putBytes memory buf count screen) := by
  rw [putBytes_eq]
  exact (inside.text _).2

theorem putstrAt_inside {memory : Memory} {fuel address : Nat} {screen shown : Screen}
    (inside : Inside screen) (shows : putstrAt memory fuel address screen = some shown) :
    Inside shown := by
  induction fuel generalizing address screen with
  | zero => cases shows
  | succ fuel ih =>
      rw [putstrAt] at shows
      split at shows
      · cases shows
        exact inside
      · exact ih (inside.putchar _).2 shows

theorem execveNotFound_keeps {path : Nat} (failed : execveNotFound console path = some after) :
    after.memory = console.memory ∧ (Inside console.screen → Inside after.screen) := by
  obtain ⟨shown, shows, rfl⟩ := Option.map_eq_some_iff.mp failed
  refine ⟨rfl, fun inside => ?_⟩
  have colored : Inside (screenSetcolor console.screen 4 0) := ⟨inside.column, inside.row⟩
  exact ((putstrAt_inside (colored.text _).2 shows).text _).2

theorem readKey_inside {line : Line} {key : Nat} (inside : Inside line.screen) :
    Inside (readKey behind buf count line key).1.screen := by
  have switched : (switchKey behind buf line key).1.screen = line.screen := by
    unfold switchKey eraseLast
    split_ifs <;> rfl
  unfold readKey
  split
  · simp only
    split
    · exact ((switched ▸ inside : Inside (switchKey behind buf line key).1.screen).putchar _).2
    · exact switched ▸ inside
  · exact inside

theorem sysRead_keeps
    (returned : (sysRead behind console fd buf count answers).result = some ((after, code), rest)) :
    Memory.Confined buf (buf + count) console.memory after.memory ∧
      (Inside console.screen → Inside after.screen) := by
  unfold sysRead at returned
  split at returned
  · obtain ⟨line, left, finished, returned⟩ := Port.bind_result returned
    obtain ⟨rfl, -⟩ : line.toConsole = after ∧ signed line.i = code := by
      have same := Option.some.inj returned
      simp only [Prod.mk.injEq] at same
      exact same.1
    rw [Port.readWhile_state finished]
    have confined : Memory.Confined buf (buf + count) console.memory
        (lastMemory screenPutchar behind console buf count answers) := lastMemory_confined
    refine ⟨confined, fun inside => ?_⟩
    exact Port.readState_invariant (fun line : Line => Inside line.screen) inside
      fun _ _ kept _ => readKey_inside kept
  · have same := Option.some.inj returned
    simp only [Prod.mk.injEq] at same
    obtain ⟨⟨rfl, -⟩, -⟩ := same
    exact ⟨.refl, id⟩

theorem sysWrite_keeps : (sysWrite console fd buf count).1.memory = console.memory ∧
    (Inside console.screen → Inside (sysWrite console fd buf count).1.screen) := by
  unfold sysWrite
  split
  · exact ⟨rfl, fun inside => putBytes_inside inside⟩
  · exact ⟨rfl, id⟩

theorem sysWaitpid_keeps {pid options : Int} {status : Nat}
    (waits : kernel.waitpid pid status options = some (next, code)) :
    (∃ input, step kernel.manager input = some next.manager) ∧ next.timer = kernel.timer ∧
      next.console.screen = kernel.console.screen ∧
      Memory.Confined status (if status = 0 then 0 else status + 4) kernel.console.memory
        next.console.memory := by
  obtain ⟨⟨manager, value, written⟩, waits, same⟩ := Option.map_eq_some_iff.mp waits
  cases same
  refine ⟨⟨.waitpid pid (status ≠ 0) options, ?_⟩, rfl, rfl, ?_⟩
  · rw [step, handle, waits]
    rfl
  · obtain ⟨after, _, same⟩ := Option.map_eq_some_iff.mp waits
    cases same
    by_cases null : status = 0
    · simpa [null] using Memory.Confined.refl
    · simpa [null] using Memory.Confined.refl.store32 le_rfl le_rfl

/-- The handler of vector 32 is `timer_callback`. -/
theorem yield_ticks (yields : regs.eax = 12)
    (returned : (yield kernel seen answers).result = some (some (next, code), rest)) :
    next = { kernel with
      timer := timerCallback^[if SystemCall.ticks ⟨regs, seen⟩ then 1 else 0] kernel.timer } := by
  have ticks : SystemCall.ticks ⟨regs, seen⟩ = decide (seen = 32) := by
    simp [SystemCall.ticks, yields]
  unfold yield at returned
  split at returned
  · rw [Port.bind_finished irqHandler_result, applyHandler_timer] at returned
    cases returned
    simp only [ticks, decide_eq_true_eq]
  · cases returned

/-- Every handler, called for its number. -/
theorem call_serviced (found : lookup initSyscalls regs.eax.toNat = some handler)
    (called : (handler.call behind seen kernel regs answers).result = some (some (next, code), rest)) :
    Serviced kernel regs seen next := by
  have number := lookup_number found
  have returned : ∀ {result : Option (Kernel × Int)},
      handler.call behind seen kernel regs = pure result → result = some (next, code) := by
    intro result same
    rw [same] at called
    exact (Prod.mk.inj (Option.some.inj called)).1
  cases handler with
  | sysExit =>
      refine process_serviced (by rw [number]; decide) (fun manager code result => ?_) (returned rfl)
      obtain ⟨after, exits, same⟩ := Option.map_eq_some_iff.mp result
      cases same
      exact ⟨.process (.exitProcess regs.ebx.toInt), by simp [step, handle, call, exits]⟩
  | sysFork =>
      refine process_serviced (by rw [number]; decide) (fun manager code result => ?_) (returned rfl)
      obtain ⟨⟨after, child⟩, forks, same⟩ := Option.map_eq_some_iff.mp result
      cases same
      exact ⟨.process .forkProcess, by simp [step, handle, call, forks]⟩
  | sysRead =>
      obtain ⟨⟨console, value⟩, left, reads, ending⟩ := Port.bind_result called
      have same := (Prod.mk.inj (Option.some.inj ending)).1
      cases same
      obtain ⟨confined, inside⟩ := sysRead_keeps reads
      refine console_serviced (by rw [number]; decide) rfl rfl inside fun address outside => ?_
      refine confined address ?_
      by_contra within
      exact outside (.inl ⟨number, by omega, by omega⟩)
  | sysWrite =>
      obtain rfl : { kernel with console := (Syscall.sysWrite kernel.console regs.ebx.toInt
          regs.ecx.toNat regs.edx.toNat).1 } = next := congrArg Prod.fst (Option.some.inj (returned rfl))
      obtain ⟨memory, inside⟩ := @sysWrite_keeps kernel.console regs.ebx.toInt regs.ecx.toNat regs.edx.toNat
      exact console_serviced (by rw [number]; decide) rfl rfl inside fun address _ =>
        congrFun memory address
  | sysOpen =>
      cases returned rfl
      exact .process (by rw [number]; decide) (.inl rfl) rfl rfl
  | sysClose =>
      refine process_serviced (by rw [number]; decide) (fun manager code closes => ?_) (returned rfl)
      exact ⟨.close regs.ebx.toInt, by simp [step, handle, closes]⟩
  | sysExecve =>
      obtain ⟨console, failed, same⟩ := Option.map_eq_some_iff.mp (returned rfl)
      cases same
      obtain ⟨memory, inside⟩ := execveNotFound_keeps failed
      exact console_serviced (by rw [number]; decide) rfl rfl inside fun address _ =>
        congrFun memory address
  | sysWaitpid =>
      obtain ⟨stepped, timer, screen, confined⟩ := sysWaitpid_keeps (returned rfl)
      have other : regs.eax ≠ 12 := by rw [number]; decide
      refine ⟨.inr stepped, by rw [unticked other, timer]; rfl, fun inside => screen ▸ inside,
        fun address outside => confined address ?_⟩
      by_contra within
      split at within
      · omega
      · rename_i pointer
        exact outside (.inr ⟨number, fun null => pointer (by rw [null]; rfl), by omega, by omega⟩)
  | sysBrk =>
      refine process_serviced (by rw [number]; decide) (fun manager code moves => ?_) (returned rfl)
      exact ⟨.brk regs.ebx.toNat, by simp [step, handle, moves]⟩
  | sysGetpid =>
      cases returned rfl
      exact .process (by rw [number]; decide) (.inl rfl) rfl rfl
  | sysSleep =>
      refine process_serviced (by rw [number]; decide) (fun manager code result => ?_) (returned rfl)
      obtain ⟨after, sleeps, same⟩ := Option.map_eq_some_iff.mp result
      cases same
      exact ⟨.process (.sleepProcess regs.ebx.toNat), by simp [step, handle, call, sleeps]⟩
  | sysGettime =>
      cases returned rfl
      exact .process (by rw [number]; decide) (.inl rfl) rfl rfl
  | sysYield =>
      cases yield_ticks number called
      exact ⟨.inl rfl, rfl, id, fun _ _ => rfl⟩
  | sysSbrk =>
      refine process_serviced (by rw [number]; decide) (fun manager code moves => ?_) (returned rfl)
      exact ⟨.sbrk regs.ebx.toInt, by simp [step, handle, moves]⟩
  | sysKill =>
      cases returned rfl
      exact .process (by rw [number]; decide)
        (.inr ⟨.process (.killProcess regs.ebx.toInt regs.ecx.toInt), rfl⟩) rfl rfl

/-- The frame that comes back is the one that went in, but for `eax`, where a
number without a handler finds `-1`. -/
def Answers (regs reply : Registers) : Prop :=
  reply = { regs with eax := reply.eax } ∧ (15 ≤ regs.eax.toNat → reply.eax = -1)

theorem syscallHandler_serviced
    (returned : (syscallHandler behind seen kernel regs answers).result = some (some (next, reply), rest)) :
    Serviced kernel regs seen next ∧ Answers regs reply := by
  unfold syscallHandler at returned
  cases found : lookup initSyscalls regs.eax.toNat with
  | none =>
      rw [found] at returned
      have same := (Prod.mk.inj (Option.some.inj returned)).1
      cases same
      have other : regs.eax ≠ 12 := by
        intro yields
        rw [yields, lookup_initSyscalls] at found
        cases found
      exact ⟨.process other (.inl rfl) rfl rfl, rfl, fun _ => rfl⟩
  | some handler =>
      rw [found] at returned
      obtain ⟨result, left, called, returned⟩ := Port.bind_result returned
      have same := (Prod.mk.inj (Option.some.inj returned)).1
      obtain ⟨⟨after, code⟩, rfl, same⟩ := Option.map_eq_some_iff.mp same
      cases same
      refine ⟨call_serviced found called, rfl, fun large => ?_⟩
      rw [lookup_initSyscalls, List.getElem?_eq_none large] at found
      cases found

end

/-- System calls with any registers take no more steps of the process table than
there are calls, tick the clock once for each `yield` for which `irq_handler`
reads its vector, keep the cursor on the screen, write no memory but what their
arguments name, and leave the registers alone except for the result; a number
without a handler gives `-1`. -/
theorem syscalls_refine (behind : UInt8) (kernel final : Kernel) (calls : List SystemCall)
    (replies : List Registers) (answers rest : List Nat)
    (returned : (syscalls behind kernel calls answers).result = some (some (final, replies), rest)) :
    (∃ inputs, inputs.length ≤ calls.length ∧
      run step kernel.manager inputs = some final.manager) ∧
    final.timer = timerCallback^[calls.countP SystemCall.ticks] kernel.timer ∧
    (Inside kernel.console.screen → Inside final.console.screen) ∧
    (∀ address, (∀ request ∈ calls, ¬Writes request.regs address) →
      final.console.memory address = kernel.console.memory address) ∧
    List.Forall₂ (fun request => Answers request.regs) calls replies := by
  induction calls generalizing kernel answers replies with
  | nil =>
      cases returned
      exact ⟨⟨[], le_rfl, rfl⟩, rfl, id, fun _ _ => rfl, .nil⟩
  | cons request calls ih =>
      obtain ⟨result, left, called, later⟩ := Port.bind_result returned
      cases result with
      | none => cases later
      | some pair =>
          obtain ⟨next, reply⟩ := pair
          obtain ⟨result, last, rested, later⟩ := Port.bind_result later
          obtain ⟨same, rfl⟩ := Prod.mk.inj (Option.some.inj later)
          obtain ⟨⟨after, others⟩, rfl, same⟩ := Option.map_eq_some_iff.mp same
          cases same
          obtain ⟨⟨inputs, short, ran⟩, ticked, inside, kept, answered⟩ := ih _ _ _ rested
          obtain ⟨serviced, answer⟩ := syscallHandler_serviced called
          refine ⟨?_, ?_, inside ∘ serviced.screen, fun address unwritten => ?_, .cons answer answered⟩
          · rcases serviced.manager with same | ⟨input, taken⟩
            · exact ⟨inputs, by rw [List.length_cons]; omega, same ▸ ran⟩
            · exact ⟨input :: inputs, by simpa using short, run_cons_eq_some.mpr ⟨_, taken, ran⟩⟩
          · rw [ticked, serviced.timer, ← Function.iterate_add_apply, List.countP_cons]
          · rw [kept address fun other member => unwritten other (List.mem_cons_of_mem _ member)]
            exact serviced.memory address (unwritten request List.mem_cons_self)

/-- The idle process forks, one of the two yields twice, with the number that
`irq_handler` reads right once, and a number has no handler. -/
theorem syscalls_refine_fork :
    let kernel : Kernel :=
      { manager := initProcessManager 0, timer := ⟨0, 100, 10⟩
        console := ⟨fun _ => 0, ⟨fun _ => 0, 7, 0, 0, 0, fun _ => 0⟩⟩ }
    let calls : List SystemCall := [⟨⟨1, 0, 0, 0, 0, 0⟩, 0⟩, ⟨⟨12, 0, 0, 0, 0, 0⟩, 32⟩,
      ⟨⟨12, 0, 0, 0, 0, 0⟩, 0⟩, ⟨⟨15, 4, 0, 0, 0, 0⟩, 0⟩]
    ∃ final replies, (syscalls 0 kernel calls []).result = some (some (final, replies), []) ∧
      final.timer.tickCount = 1 ∧
      List.Forall₂ (fun request => Answers request.regs) calls replies := by
  intro kernel calls
  obtain ⟨final, replies, returned⟩ : ∃ final replies,
      (syscalls 0 kernel calls []).result = some (some (final, replies), []) := ⟨_, _, rfl⟩
  obtain ⟨_, ticked, _, _, answered⟩ := syscalls_refine 0 kernel final calls replies [] [] returned
  exact ⟨final, replies, returned, congrArg Counter.tickCount ticked, answered⟩

end Helios.Syscall
