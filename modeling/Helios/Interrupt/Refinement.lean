import Helios.Data.Run
import Helios.Interrupt.Controllers

namespace Helios.Interrupt

open Helios.Data

/-! The interrupt controllers behave as the lines do. -/

section

variable {σ : Type} {handlers : Nat → Option (σ → σ)} {start : σ} {system next : System σ}
variable {pair : Pair} {lines after : Lines} {unended served : Nat → Bool} {line vector seen : Nat}
variable {event : Event}

/-- A state of the controllers and the kernel, and what it stands for. -/
structure Represents (handlers : Nat → Option (σ → σ)) (start : σ) (system : System σ)
    (lines : Lines) : Prop where
  configured : Configured system.pair lines
  serves : Serves system.pair lines.unended lines.busy
  line : ∀ line, lines.busy = some line → line ∈ priority
  busy : system.busy = lines.busy.map (32 + ·)
  state : system.state = lines.called.foldl (applyHandler handlers) start

theorem priority_iff : line ∈ priority ↔ line < 16 ∧ line ≠ 2 := by
  simp only [priority, List.mem_append, List.mem_map, List.mem_range, List.mem_cons,
    List.not_mem_nil, or_false]
  constructor
  · rintro (((rfl | rfl) | ⟨other, small, rfl⟩) | rfl | rfl | rfl | rfl | rfl) <;> omega
  · rintro ⟨small, other⟩
    by_cases behind : 8 ≤ line
    · exact .inl (.inr ⟨line - 8, by omega, by omega⟩)
    · omega

theorem Configured.raise (configured : Configured pair lines) (small : line < 16) :
    Configured (pair.raise line)
      { lines with waiting := Function.update lines.waiting line true } := by
  unfold Pair.raise
  split
  case isTrue front =>
    refine ⟨configured.stages, configured.bases, fun other few notCascade => ?_,
      fun other few => ?_, configured.firstMask, configured.secondMask⟩
    · show Function.update _ _ _ _ = Function.update _ _ _ _
      rw [Function.update_apply, Function.update_apply, configured.first other few notCascade]
    · exact (configured.second other few).trans (Function.update_of_ne (by omega) _ _).symm
  case isFalse behind =>
    refine ⟨configured.stages, configured.bases, fun other few notCascade => ?_,
      fun other few => ?_, configured.firstMask, configured.secondMask⟩
    · exact (configured.first other few notCascade).trans
        (Function.update_of_ne (by omega) _ _).symm
    · show Function.update pair.second.request (line - 8) true other =
        Function.update lines.waiting line true (8 + other)
      rw [Function.update_apply, Function.update_apply, configured.second other few]
      exact if_congr (by omega) rfl rfl

theorem Serves.raise {busy : Option Nat} (serves : Serves pair unended busy) :
    Serves (pair.raise line) unended busy := by
  unfold Pair.raise
  split <;> exact ⟨serves.first, serves.second⟩

theorem Configured.started (configured : Configured pair lines) (small : line < 16) :
    Configured (started pair line)
      { lines with waiting := Function.update lines.waiting line false, busy := some line } := by
  unfold Interrupt.started
  split
  case isTrue front =>
    refine ⟨configured.stages, configured.bases, fun other few notCascade => ?_,
      fun other few => ?_, configured.firstMask, configured.secondMask⟩
    · show Function.update _ _ _ _ = Function.update _ _ _ _
      rw [Function.update_apply, Function.update_apply, configured.first other few notCascade]
    · exact (configured.second other few).trans (Function.update_of_ne (by omega) _ _).symm
  case isFalse behind =>
    refine ⟨configured.stages, configured.bases, fun other few notCascade => ?_,
      fun other few => ?_, configured.firstMask, configured.secondMask⟩
    · show Function.update _ _ _ _ = Function.update _ _ _ _
      rw [Function.update_of_ne notCascade, Function.update_of_ne (by omega),
        configured.first other few notCascade]
    · show Function.update pair.second.request (line - 8) false other =
        Function.update lines.waiting line false (8 + other)
      rw [Function.update_apply, Function.update_apply, configured.second other few]
      exact if_congr (by omega) rfl rfl

theorem Serves.started (serves : Serves pair unended none) (small : line < 16) :
    Serves (started pair line) unended (some line) := by
  unfold Interrupt.started
  split
  case isTrue front =>
    refine ⟨fun other few => ?_, fun other few => ?_⟩
    · show Function.update _ _ _ _ = _
      rw [Function.update_apply, serves.first other few]
      by_cases same : other = line <;> simp [same, front]
    · have apart : line ≠ 8 + other := by omega
      rw [serves.second other few]
      simpa using fun same => absurd same apart
  case isFalse behind =>
    refine ⟨fun other few => ?_, fun other few => ?_⟩
    · show Function.update _ _ _ _ = _
      rw [Function.update_apply, serves.first other few]
      by_cases same : other = 2 <;> simp [same, behind]
    · show Function.update _ _ _ _ = _
      rw [Function.update_apply, serves.second other few]
      by_cases same : other = line - 8
      · simp [same, (by omega : 8 + (line - 8) = line)]
      · have apart : line ≠ 8 + other := by omega
        simpa [same] using fun same => absurd same apart

theorem Configured.ended {both : Prop} [Decidable both] (configured : Configured pair lines)
    {busy : Option Nat} {handled called : List Nat} :
    Configured (ended pair both) { lines with unended, busy, handled, called } := by
  unfold Interrupt.ended
  rw [pair.first.endOfInterrupt_eq, pair.second.endOfInterrupt_eq]
  split <;>
    exact ⟨configured.stages, configured.bases, configured.first, configured.second,
      configured.firstMask, configured.secondMask⟩

theorem service_endSecond {controller : Controller}
    (same : ∀ other < 8, controller.service other = served (8 + other)) :
    ∀ other < 8, controller.endOfInterrupt.service other = Lines.endSecond served (8 + other) := by
  intro other small
  have found : (List.range 8).find? controller.service =
      (List.range 8).find? fun line => served (8 + line) :=
    List.find?_congr fun line member => same line (List.mem_range.mp member)
  rw [Controller.endOfInterrupt_service, Lines.endSecond, found]
  cases (List.range 8).find? fun line => served (8 + line) with
  | none => exact same other small
  | some line =>
      show Function.update controller.service line false other =
        Function.update served (8 + line) false (8 + other)
      rw [Function.update_apply, Function.update_apply, same other small]
      exact if_congr (by omega) rfl rfl

theorem ended_second {both : Prop} [Decidable both]
    (same : ∀ other < 8, pair.second.service other = served (8 + other)) :
    ∀ other < 8, (ended pair both).second.service other =
      (if both then Lines.endSecond served else served) (8 + other) := by
  intro other small
  unfold Interrupt.ended
  by_cases ends : both
  · rw [if_pos ends, if_pos ends]
    exact service_endSecond same other small
  · rw [if_neg ends, if_neg ends]
    exact same other small

theorem Serves.ended_idle {both : Prop} [Decidable both] (serves : Serves pair unended none) :
    Serves (ended pair both) (if both then Lines.endSecond unended else unended) none := by
  have idle : pair.first.endOfInterrupt = pair.first := Controller.endOfInterrupt_idle serves.first
  refine ⟨fun other small => ?_, ended_second fun other small => serves.second other small⟩
  show pair.first.endOfInterrupt.service other = _
  rw [idle]
  exact serves.first other small

/-- The line of the second controller that is being served joins those without
an end, until `irq_handler` sends it one. -/
theorem Serves.ended (serves : Serves pair unended (some line)) (small : line < 16) :
    Serves (ended pair (seen ≥ 40))
      (Lines.endedBy seen (if line < 8 then unended else Function.update unended line true))
      none := by
  refine ⟨fun other few => ?_, ended_second fun other few => ?_⟩
  · show pair.first.endOfInterrupt.service other = false
    by_cases front : line < 8
    · exact Controller.endOfInterrupt_single front (fun other few => by
        rw [serves.first other few, Option.elim_some, if_pos front]) other few
    · exact @Controller.endOfInterrupt_single pair.first 2 (by omega) (fun other few => by
        rw [serves.first other few, Option.elim_some, if_neg front]) other few
  · rw [serves.second other few]
    by_cases front : line < 8
    · have apart : line ≠ 8 + other := by omega
      rw [if_pos front]
      simpa using fun same => absurd same apart
    · rw [if_neg front, Function.update_apply]
      by_cases same : 8 + other = line
      · simp [same]
      · simp [same, Ne.symm same]

/-- A step of the kernel and the controllers is a step of the lines. -/
theorem Represents.step (represents : Represents handlers start system lines)
    (taken : Step handlers system event next) :
    ∃ after, lines.step event = some after ∧ Represents handlers start next after := by
  obtain ⟨configured, serves, line, busy, state⟩ := represents
  cases taken with
  | request small notCascade =>
      refine ⟨_, if_pos ⟨small, notCascade⟩, configured.raise small, serves.raise, line, busy, state⟩
  | acknowledge asked =>
      have idle : lines.busy = none := by simpa using busy.symm
      rw [idle] at serves
      rw [acknowledge_eq configured serves] at asked
      obtain ⟨served, found, same⟩ := Option.map_eq_some_iff.mp asked
      cases same
      have member : served ∈ priority := List.mem_of_find?_eq_some found
      have small := (priority_iff.mp member).1
      refine ⟨_, (if_pos idle).trans (congrArg _ found), configured.started small,
        serves.started small, ?_, rfl, state⟩
      intro other same
      exact Option.some.inj same ▸ member
  | @handle _ _ _ _ _ seen inside answered =>
      obtain ⟨handled, ends⟩ := served_irqHandler.mp answered
      obtain ⟨active, serving, _⟩ := Option.map_eq_some_iff.mp busy.symm
      have small := (priority_iff.mp (line active serving)).1
      rw [serving] at serves
      refine ⟨_, (if_pos inside).trans (congrArg (Option.map _) serving), ?_, ?_, nofun, rfl, ?_⟩
      · rw [ends]
        exact configured.ended
      · rw [ends]
        exact serves.ended small
      · show _ = (lines.called ++ [seen]).foldl _ _
        rw [List.foldl_append, ← state, handled]
        rfl
  | @software _ _ _ _ _ seen vectored inside answered =>
      obtain ⟨handled, ends⟩ := served_irqHandler.mp answered
      have idle : lines.busy = none := by simpa using busy.symm
      rw [idle] at serves
      refine ⟨_, if_pos ⟨idle, vectored, inside⟩, ?_, ?_, line, busy, ?_⟩
      · rw [ends]
        exact configured.ended
      · rw [ends, idle]
        exact serves.ended_idle
      · show _ = (lines.called ++ [seen]).foldl _ _
        rw [List.foldl_append, ← state, handled]
        rfl
  | enable small answered =>
      have idle : lines.busy = none := by simpa using busy.symm
      obtain ⟨set, first, second⟩ := served_enableIrq configured answered
      exact ⟨_, if_pos ⟨idle, small⟩, set, ⟨first ▸ serves.first, second ▸ serves.second⟩,
        line, busy, state⟩
  | disable small answered =>
      have idle : lines.busy = none := by simpa using busy.symm
      obtain ⟨set, first, second⟩ := served_disableIrq configured answered
      exact ⟨_, if_pos ⟨idle, small⟩, set, ⟨first ▸ serves.first, second ▸ serves.second⟩,
        line, busy, state⟩
  | endOfInterrupt answered =>
      have idle : lines.busy = none := by simpa using busy.symm
      rw [idle] at serves
      refine ⟨_, if_pos idle, ?_, ?_, line, busy, state⟩
      · rw [served_sendEoi.mp answered]
        exact configured.ended
      · rw [served_sendEoi.mp answered, idle]
        exact serves.ended_idle

/-- The kernel and the controllers can take every step of the lines. -/
theorem Represents.progress (represents : Represents handlers start system lines)
    (enabled : lines.step event = some after) : ∃ next, Step handlers system event next := by
  obtain ⟨pair, vector, state⟩ := system
  have configured : Configured pair lines := represents.configured
  have serves : Serves pair lines.unended lines.busy := represents.serves
  have busy : vector = lines.busy.map (32 + ·) := represents.busy
  have idle : lines.busy = none → vector = none := fun none => by rw [busy, none]; rfl
  cases event with
  | request line =>
      obtain ⟨small, notCascade⟩ := (Option.ite_none_right_eq_some.mp enabled).1
      exact ⟨_, .request small notCascade⟩
  | acknowledge =>
      obtain ⟨free, found⟩ := Option.ite_none_right_eq_some.mp enabled
      obtain ⟨line, first, _⟩ := Option.map_eq_some_iff.mp found
      obtain rfl := idle free
      have asked := acknowledge_eq configured (free ▸ serves)
      rw [first] at asked
      exact ⟨_, .acknowledge asked⟩
  | handle seen =>
      obtain ⟨inside, served⟩ := Option.ite_none_right_eq_some.mp enabled
      obtain ⟨line, active, _⟩ := Option.map_eq_some_iff.mp served
      obtain rfl : vector = some (32 + line) := by rw [busy, active]; rfl
      exact ⟨_, .handle inside (served_irqHandler.mpr ⟨rfl, rfl⟩)⟩
  | software vector seen =>
      obtain ⟨free, vectored, inside⟩ := (Option.ite_none_right_eq_some.mp enabled).1
      obtain rfl := idle free
      exact ⟨_, .software vectored inside (served_irqHandler.mpr ⟨rfl, rfl⟩)⟩
  | enable irq =>
      obtain ⟨free, small⟩ := (Option.ite_none_right_eq_some.mp enabled).1
      obtain rfl := idle free
      exact ⟨_, .enable small ((served_remask configured.stages).mpr rfl)⟩
  | disable irq =>
      obtain ⟨free, small⟩ := (Option.ite_none_right_eq_some.mp enabled).1
      obtain rfl := idle free
      exact ⟨_, .disable small ((served_remask configured.stages).mpr rfl)⟩
  | endOfInterrupt irq =>
      obtain rfl := idle (Option.ite_none_right_eq_some.mp enabled).1
      exact ⟨_, .endOfInterrupt (served_sendEoi.mpr rfl)⟩

/-- A run of the kernel and the controllers is a run of the lines. -/
theorem Represents.steps {events : List Event} {final : System σ}
    (represents : Represents handlers start system lines)
    (taken : Steps handlers system events final) :
    ∃ after, run Lines.step lines events = some after ∧ Represents handlers start final after := by
  induction taken generalizing lines with
  | done => exact ⟨lines, rfl, represents⟩
  | step first _ ih =>
      obtain ⟨middle, early, kept⟩ := represents.step first
      obtain ⟨after, late, reached⟩ := ih kept
      exact ⟨after, run_cons_eq_some.mpr ⟨middle, early, late⟩, reached⟩

theorem Represents.run {events : List Event} (represents : Represents handlers start system lines)
    (taken : run Lines.step lines events = some after) :
    ∃ final, Steps handlers system events final ∧ Represents handlers start final after := by
  induction events generalizing system lines with
  | nil => exact ⟨system, .done, Option.some.inj taken ▸ represents⟩
  | cons event events ih =>
      obtain ⟨middle, early, late⟩ := run_cons_eq_some.mp taken
      obtain ⟨next, first⟩ := represents.progress early
      obtain ⟨same, also, kept⟩ := represents.step first
      obtain rfl : middle = same := Option.some.inj (early.symm.trans also)
      obtain ⟨final, rest, reached⟩ := ih kept late
      exact ⟨final, .step first rest, reached⟩

/-- Controllers as firmware may leave them, with vectors 8 and 112. -/
def firmware : Pair where
  first := { base := 8, mask := 0xB8, cascade := 4, mode := 1, stage := .mask,
             request := fun line => line == 0, service := fun _ => false }
  second := { base := 112, mask := 0x8F, cascade := 2, mode := 1, stage := .mask,
              request := fun _ => false, service := fun _ => false }

/-- After `init_pic` no line waits and none is disabled. -/
theorem booted_represents {booted : Pair}
    (idle : ∀ line < 8, pair.first.service line = false ∧ pair.second.service line = false)
    (boots : Port.Served Pair.step pair initPic () booted) :
    Represents handlers start ⟨booted, none, start⟩ Lines.initial := by
  rw [served_initPic.mp boots]
  refine ⟨⟨⟨rfl, rfl⟩, ⟨rfl, rfl⟩, fun _ _ _ => rfl, fun _ _ => rfl, fun _ _ => ?_, fun _ _ => ?_⟩,
    ⟨fun line small => (idle line small).1, fun line small => ?_⟩, nofun, rfl, rfl⟩
  · exact BitVec.getLsbD_zero
  · exact BitVec.getLsbD_zero
  · exact (idle line small).2

end

end Helios.Interrupt
