import Helios.Data.Cpu
import Helios.Data.Memory
import Helios.Syscall.Model

namespace Helios.Syscall

open Helios.Data

/-! The table of system calls. -/

def maxSyscalls : Nat := 32

/-- `syscall_info_t`; `none` is a `NULL` name or handler. -/
structure SyscallInfo (η : Type) where
  num : Nat
  name : Option String
  handler : Option η

/-- `syscall_table` and `syscall_count`. -/
structure SyscallTable (η : Type) where
  info : Nat → SyscallInfo η
  count : Nat

section

variable {η : Type}

/-- The entry that `memset` leaves. -/
def SyscallInfo.cleared : SyscallInfo η := ⟨0, none, none⟩

def SyscallTable.cleared : SyscallTable η := ⟨fun _ => .cleared, 0⟩

def registerSyscall (table : SyscallTable η) (num : Nat) (name : String) (handler : η) :
    SyscallTable η × Int :=
  if num ≥ maxSyscalls ∨ (table.info num).handler.isSome then (table, -1)
  else
    ({ info := Function.update table.info num ⟨num, some name, some handler⟩
       count := u32 (table.count + 1) }, 0)

/-- `get_syscall_info`; a pointer into the table is its index. -/
def getSyscallInfo (table : SyscallTable η) (num : Nat) : Option (SyscallInfo η) :=
  if num ≥ maxSyscalls then none else some (table.info num)

/-- The test of `syscall_handler`. -/
def lookup (table : SyscallTable η) (num : Nat) : Option η :=
  if num ≥ maxSyscalls then none else (table.info num).handler

/-- A call of `register_syscall`. -/
structure Registration (η : Type) where
  num : Nat
  name : String
  handler : η

def Registration.info (registration : Registration η) : SyscallInfo η :=
  ⟨registration.num, some registration.name, some registration.handler⟩

def registerAll (table : SyscallTable η) (calls : List (Registration η)) : SyscallTable η :=
  calls.foldl (fun table call => (registerSyscall table call.num call.name call.handler).1) table

/-- The first call for a number. -/
def firstFor (calls : List (Registration η)) (num : Nat) : Option (Registration η) :=
  calls.find? fun call => call.num = num

/-- The numbers of a list of calls that have a place in the table. -/
def placedNumbers (calls : List (Registration η)) : Finset Nat :=
  (calls.map (·.num)).toFinset.filter (· < maxSyscalls)

variable {calls : List (Registration η)} {call : Registration η} {num : Nat}

theorem firstFor_append : firstFor (calls ++ [call]) num =
    (firstFor calls num).or (if call.num = num then some call else none) := by
  rw [firstFor, List.find?_append, List.find?_singleton]
  simp [firstFor]

theorem mem_placedNumbers : num ∈ placedNumbers calls ↔
    num < maxSyscalls ∧ (firstFor calls num).isSome := by
  simp only [placedNumbers, firstFor, Finset.mem_filter, List.mem_toFinset, List.mem_map,
    List.find?_isSome, decide_eq_true_eq]
  exact and_comm

theorem placedNumbers_append : placedNumbers (calls ++ [call]) =
    if call.num < maxSyscalls then insert call.num (placedNumbers calls)
    else placedNumbers calls := by
  have inserted : (calls.map (·.num) ++ [call.num]).toFinset =
      insert call.num (calls.map (·.num)).toFinset := by
    ext num
    simp
  rw [placedNumbers, List.map_append, List.map_singleton, inserted, Finset.filter_insert]
  rfl

theorem placedNumbers_card : (placedNumbers calls).card ≤ maxSyscalls := by
  have inside : placedNumbers calls ⊆ Finset.range maxSyscalls := by
    intro num member
    exact Finset.mem_range.mpr (mem_placedNumbers.mp member).1
  exact (Finset.card_le_card inside).trans (Finset.card_range _).le

/-- A table that holds the first call for each number that has a place. -/
structure Registered (table : SyscallTable η) (calls : List (Registration η)) : Prop where
  placed : ∀ num < maxSyscalls,
    table.info num = ((firstFor calls num).map Registration.info).getD .cleared
  count : table.count = (placedNumbers calls).card

theorem handler_placed {registration : Option (Registration η)} :
    ((registration.map Registration.info).getD .cleared).handler =
      registration.map Registration.handler := by
  cases registration <;> rfl

namespace Registered

variable {table : SyscallTable η} (registered : Registered table calls)

theorem cleared : Registered (η := η) .cleared [] := ⟨fun _ _ => rfl, rfl⟩

include registered

theorem lookup_eq (num : Nat) : lookup table num =
    if num < maxSyscalls then (firstFor calls num).map Registration.handler else none := by
  unfold lookup
  by_cases place : num < maxSyscalls
  · rw [if_neg (not_le.mpr place), if_pos place, registered.placed num place, handler_placed]
  · rw [if_pos (not_lt.mp place), if_neg place]

theorem taken_iff (place : call.num < maxSyscalls) :
    (table.info call.num).handler.isSome ↔ firstFor calls call.num ≠ none := by
  rw [registered.placed _ place, handler_placed, Option.isSome_map, Option.isSome_iff_ne_none]

/-- A call succeeds if and only if its number has a place and is a new one. -/
theorem register : Registered (registerSyscall table call.num call.name call.handler).1
      (calls ++ [call]) ∧
    ((registerSyscall table call.num call.name call.handler).2 = 0 ↔
      call.num < maxSyscalls ∧ firstFor calls call.num = none) := by
  by_cases new : call.num < maxSyscalls ∧ firstFor calls call.num = none
  · have untaken : ¬(call.num ≥ maxSyscalls ∨ (table.info call.num).handler.isSome = true) := by
      rw [not_or, registered.taken_iff new.1, not_not]
      exact ⟨not_le.mpr new.1, new.2⟩
    rw [registerSyscall, if_neg untaken]
    refine ⟨⟨fun num place => ?_, ?_⟩, iff_of_true rfl new⟩
    · by_cases here : num = call.num
      · rw [here, firstFor_append, new.2, if_pos rfl]
        exact Function.update_self _ _ _
      · rw [firstFor_append, if_neg (Ne.symm here), Option.or_none, ← registered.placed num place]
        exact Function.update_of_ne here _ _
    · have absent : call.num ∉ placedNumbers calls := by
        simp [mem_placedNumbers, new.2]
      have room := @placedNumbers_card _ (calls ++ [call])
      rw [placedNumbers_append, if_pos new.1, Finset.card_insert_of_notMem absent] at room ⊢
      rw [registered.count]
      exact u32_of_lt (lt_of_le_of_lt room (by decide))
  · have refused : call.num ≥ maxSyscalls ∨ (table.info call.num).handler.isSome = true := by
      by_cases place : call.num < maxSyscalls
      · exact .inr ((registered.taken_iff place).mpr fun first => new ⟨place, first⟩)
      · exact .inl (not_lt.mp place)
    rw [registerSyscall, if_pos refused]
    refine ⟨⟨fun num place => ?_, ?_⟩, iff_of_false (by simp) new⟩
    · rw [registered.placed num place, firstFor_append]
      by_cases here : call.num = num
      · obtain ⟨first, found⟩ := Option.ne_none_iff_exists'.mp fun first =>
          new ⟨here ▸ place, here ▸ first⟩
        rw [found]
        rfl
      · rw [if_neg here, Option.or_none]
    · rw [registered.count, placedNumbers_append]
      split
      · refine congrArg _ (Finset.insert_eq_self.mpr ?_).symm
        exact mem_placedNumbers.mpr
          ⟨‹_›, Option.isSome_iff_ne_none.mpr fun first => new ⟨‹_›, first⟩⟩
      · rfl

theorem registerAll (more : List (Registration η)) :
    Registered (registerAll table more) (calls ++ more) := by
  induction more generalizing table calls with
  | nil => rwa [List.append_nil]
  | cons call more ih =>
      have later := ih (@register _ _ call _ registered).1
      rwa [List.append_assoc] at later

end Registered

/-- After any calls of `register_syscall` on a cleared table, each number below
32 has the entry of the first call for it, the count is that of the numbers, and
another call succeeds if and only if its number is below 32 and new. -/
theorem registerSyscall_first (calls : List (Registration η)) :
    let table := registerAll .cleared calls
    (∀ num, getSyscallInfo table num =
      if num < maxSyscalls then some (((firstFor calls num).map Registration.info).getD .cleared)
      else none) ∧
    (∀ num, lookup table num =
      if num < maxSyscalls then (firstFor calls num).map Registration.handler else none) ∧
    table.count = (placedNumbers calls).card ∧
    ∀ call : Registration η, (registerSyscall table call.num call.name call.handler).2 = 0 ↔
      call.num < maxSyscalls ∧ firstFor calls call.num = none := by
  intro table
  have registered : Registered table calls := Registered.cleared.registerAll calls
  refine ⟨fun num => ?_, registered.lookup_eq, registered.count, fun call => registered.register.2⟩
  unfold getSyscallInfo
  by_cases place : num < maxSyscalls
  · rw [if_neg (not_le.mpr place), if_pos place, registered.placed num place]
  · rw [if_pos (not_lt.mp place), if_neg place]

end

end Helios.Syscall
