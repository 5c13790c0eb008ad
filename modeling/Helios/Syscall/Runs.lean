import Helios.Syscall.Model

namespace Helios.Syscall

open Helios.Data Helios.Process ProcessManager

/-! What a system call leaves alone. -/

def OnlyFd (change : Pcb → Pcb) : Prop := ∀ pcb, change pcb = { pcb with fd := (change pcb).fd }

def OnlyBrk (change : Pcb → Pcb) : Prop := ∀ pcb, change pcb = { pcb with brk := (change pcb).brk }

/-- At most a change of this kind to the current process. -/
inductive Written (manager : ProcessManager) (kind : (Pcb → Pcb) → Prop) : ProcessManager → Prop
  | nothing : Written manager kind manager
  | changed {current : Slot} {change : Pcb → Pcb} (found : manager.currentProcess = some current)
      (own : kind change) : Written manager kind (manager.update current change)

/-- What a system call can do. -/
inductive Effect (manager : ProcessManager) : ProcessManager → Prop
  | called {input : Call} {filled : Option Slot} {next : ProcessManager}
      (result : call manager input = some (next, filled)) : Effect manager next
  | described {next : ProcessManager} (written : Written manager OnlyFd next) : Effect manager next
  | moved {next : ProcessManager} (written : Written manager OnlyBrk next) : Effect manager next

section

variable {manager next : ProcessManager} {input : Operation} {reply : Reply} {slot : Slot}
variable {fd increment : Int} {code : Int}

theorem sysClose_writes (result : sysClose manager fd = some (next, code)) : Written manager OnlyFd next := by
  simp only [sysClose] at result
  split at result
  · cases result
    exact .nothing
  · split at result
    · cases result
    · rename_i current found
      cases result
      exact .changed found fun _ => rfl

theorem sysDup_writes (result : sysDup manager fd = some (next, code)) : Written manager OnlyFd next := by
  simp only [sysDup] at result
  split at result
  · cases result
    exact .nothing
  · split at result
    · cases result
    · rename_i current found
      split at result
      · cases result
        exact .nothing
      · split at result
        · cases result
          exact .nothing
        · cases result
          exact .changed found fun _ => rfl

theorem sysPipe_writes {pipefd : Bool} {written : Option (Nat × Nat)}
    (result : sysPipe manager pipefd = some (next, code, written)) : Written manager OnlyFd next := by
  simp only [sysPipe] at result
  split at result
  · cases result
  · rename_i current found
    split at result
    · cases result
      exact .changed found fun _ => rfl
    · cases result
      exact .nothing

theorem sysBrk_writes {addr : Nat} (result : sysBrk manager addr = some (next, code)) :
    Written manager OnlyBrk next := by
  simp only [sysBrk] at result
  split at result
  · cases result
  · rename_i current found
    split at result
    · cases result
      exact .nothing
    · cases result
      exact .changed found fun _ => rfl

theorem sysSbrk_writes (result : sysSbrk manager increment = some (next, code)) :
    Written manager OnlyBrk next := by
  simp only [sysSbrk] at result
  split at result
  · cases result
  · rename_i current found
    cases result
    exact .changed found fun _ => rfl

theorem sysWaitpid_calls {pid options : Int} {status : Bool} {written : Option Int}
    (result : sysWaitpid manager pid status options = some (next, code, written)) :
    call manager (.waitProcess pid) = some (next, none) := by
  obtain ⟨blocked, waited, same⟩ := Option.map_eq_some_iff.mp result
  cases same
  rw [call, waited]
  rfl

theorem handle_effect (handled : handle manager input = some (next, reply)) : Effect manager next := by
  cases input with
  | process input =>
      obtain ⟨⟨after, filled⟩, called, same⟩ := Option.map_eq_some_iff.mp handled
      cases same
      exact .called called
  | «open» path flags mode =>
      cases handled
      exact .described .nothing
  | close fd =>
      obtain ⟨⟨after, code⟩, closed, same⟩ := Option.map_eq_some_iff.mp handled
      cases same
      exact .described (sysClose_writes closed)
  | dup oldfd =>
      obtain ⟨⟨after, code⟩, copied, same⟩ := Option.map_eq_some_iff.mp handled
      cases same
      exact .described (sysDup_writes copied)
  | pipe pipefd =>
      obtain ⟨⟨after, code, written⟩, piped, same⟩ := Option.map_eq_some_iff.mp handled
      cases same
      exact .described (sysPipe_writes piped)
  | brk addr =>
      obtain ⟨⟨after, code⟩, moved, same⟩ := Option.map_eq_some_iff.mp handled
      cases same
      exact .moved (sysBrk_writes moved)
  | sbrk increment =>
      obtain ⟨⟨after, code⟩, moved, same⟩ := Option.map_eq_some_iff.mp handled
      cases same
      exact .moved (sysSbrk_writes moved)
  | waitpid pid status options =>
      obtain ⟨⟨after, code, written⟩, waited, same⟩ := Option.map_eq_some_iff.mp handled
      cases same
      exact .called (sysWaitpid_calls waited)

theorem Written.current {kind : (Pcb → Pcb) → Prop} (written : Written manager kind next) :
    next.currentProcess = manager.currentProcess := by
  cases written with
  | nothing => rfl
  | changed found own => rfl

/-- What is written leaves the fields alone that its kind leaves alone. -/
theorem Written.field_eq {kind : (Pcb → Pcb) → Prop} {β : Type} {field : Pcb → β}
    (written : Written manager kind next)
    (kept : ∀ change, kind change → ∀ pcb, field (change pcb) = field pcb) (slot : Slot) :
    field (next.processTable slot) = field (manager.processTable slot) := by
  cases written with
  | nothing => rfl
  | changed found own => exact update_aside (kept _ own) _ slot

theorem Effect.started {current : Slot} (effect : Effect manager next)
    (started : manager.currentProcess = some current) : ∃ current, next.currentProcess = some current := by
  cases effect with
  | called result => exact call_started started result
  | described written => exact ⟨current, written.current.trans started⟩
  | moved written => exact ⟨current, written.current.trans started⟩

theorem run_started {kernelPageDir : Nat} {inputs : List Operation}
    (reached : run step (initProcessManager kernelPageDir) inputs = some manager) :
    ∃ current, manager.currentProcess = some current := by
  have everywhere : Along step (fun _ _ => True) (initProcessManager kernelPageDir) inputs :=
    .of_forall fun _ _ _ => trivial
  refine run_invariant (fun manager => ∃ current, manager.currentProcess = some current) everywhere
    ⟨0, rfl⟩ ?_ reached
  intro state input next started _ taken
  obtain ⟨current, found⟩ := started
  obtain ⟨⟨after, reply⟩, handled, same⟩ := Option.map_eq_some_iff.mp taken
  cases same
  exact (handle_effect handled).started found

end

end Helios.Syscall
