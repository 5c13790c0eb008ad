import Helios.Ata.Model

namespace Helios.Ata

open Helios.Data

/-! Which ports the driver reaches.

The register constants of `ata.h` are the port numbers of the primary channel,
not offsets, and every access adds one of them to the base of a channel. -/

/-- The channels as `init_ata` sets them up. -/
structure Configured (ata : Driver) : Prop where
  first : ata.channels 0 = primary
  second : ata.channels 1 = secondary

def isOutb : Access → Bool
  | .outb _ _ => true
  | _ => false

/-- The register that the byte written at a given place of a call is meant for:
the drive, then the command of `ata_probe`. -/
def probeRole : Nat → Nat
  | 0 => 6
  | _ => 7

/-- The drive, the count, the three address bytes, the drive again, and then
commands. -/
def transferRole : Nat → Nat
  | 0 => 6
  | 1 => 2
  | 2 => 3
  | 3 => 4
  | 4 => 5
  | 5 => 6
  | _ => 7

/-- The accesses stay within the ports of a channel, and every byte is written
to its register. -/
structure OnChannel (channel : Channel) (role : Nat → Nat) (log : List Access) : Prop where
  ports : ∀ access ∈ log,
    (channel.base ≤ access.port ∧ access.port ≤ channel.base + 7) ∨ access.port = channel.ctrl
  registers : ∀ index port value, (log.filter isOutb)[index]? = some (.outb port value) →
    port = channel.base + role index

section

variable {ata : Driver} {drive lba num code : Nat} {answers : List Nat} {role : Nat → Nat}
variable {channel : Channel} {α : Type}

theorem OnChannel.nil : OnChannel channel role [] := by
  constructor
  · intro access member
    cases member
  · intro index port value found
    cases found

/-- The first byte that `ata_select_drive` writes. -/
def selection (ata : Driver) (drive : Nat) : Access :=
  .outb (portAt (ata.base (drive / 2)) ataDriveHead) (0xA0 ||| (drive % 2) <<< 4)

theorem selection_mem (next : Unit → Port α) :
    selection ata drive ∈ ((ataSelectDrive ata drive >>= next) answers).log :=
  Port.mem_bind_log (Port.mem_bind_log (List.mem_singleton_self _))

/-- That byte goes to a port outside the channel. -/
theorem selection_outside {log : List Access} (configured : Configured ata) (small : drive < 4)
    (member : selection ata drive ∈ log) : ¬ OnChannel (ata.channels (drive / 2)) role log := by
  intro reached
  have selected := reached.ports _ member
  have half : drive / 2 = 0 ∨ drive / 2 = 1 := by omega
  rw [selection, Driver.base, Access.port] at selected
  cases half with
  | inl zero =>
      rw [zero, configured.first] at selected
      exact absurd selected (by decide)
  | inr one =>
      rw [one, configured.second] at selected
      exact absurd selected (by decide)

theorem command_onChannel_iff (configured : Configured ata) (small : drive < 4) (failed : α)
    (transfer : Nat → Port α) :
    OnChannel (ata.channels (drive / 2)) role
        ((command ata drive lba num code failed transfer) answers).log ↔
      ata.initialized = false ∨ ata.present drive = 0 ∨ num = 0 := by
  by_cases absent : ata.initialized = false ∨ ata.present drive = 0
  · rw [command, if_pos absent]
    exact ⟨fun _ => or_assoc.mp (.inl absent), fun _ => .nil⟩
  · by_cases none : num = 0
    · rw [command, if_neg absent, if_pos none]
      exact ⟨fun _ => .inr (.inr none), fun _ => .nil⟩
    · rw [command, if_neg absent, if_neg none]
      constructor
      · intro reached
        exact absurd reached (selection_outside configured small (selection_mem _))
      · intro returns
        exact absurd (or_assoc.mpr returns) (not_or.mpr ⟨absent, none⟩)

end

/-- No probe stays on the ports of its channel, and a transfer does so exactly
when it returns before its first access. -/
theorem channel_reached_iff (ata : Driver) (memory : Memory) (drive lba num buf : Nat)
    (answers : List Nat) (configured : Configured ata) (small : drive < 4) :
    ¬ OnChannel (ata.channels (drive / 2)) probeRole ((ataProbe ata drive) answers).log ∧
      (OnChannel (ata.channels (drive / 2)) transferRole
          ((ataReadSectors ata memory drive lba num buf) answers).log ↔
        ata.initialized = false ∨ ata.present drive = 0 ∨ num = 0) ∧
      (OnChannel (ata.channels (drive / 2)) transferRole
          ((ataWriteSectors ata memory drive lba num buf) answers).log ↔
        ata.initialized = false ∨ ata.present drive = 0 ∨ num = 0) := by
  refine ⟨?_, command_onChannel_iff configured small _ _, command_onChannel_iff configured small _ _⟩
  exact selection_outside configured small (Port.mem_bind_log (selection_mem _))

/-- The driver after `init_ata` has found one drive, the primary master. -/
def oneDrive : Driver where
  channels := setChannels fun _ => secondary
  devices := fun position => if position = 0 then 1 else if position = 14 then 0x10 else 0
  initialized := true

theorem oneDrive_configured : Configured oneDrive := ⟨rfl, rfl⟩

theorem channel_reached_iff_no_sectors :
    OnChannel (oneDrive.channels 0) transferRole
      ((ataReadSectors oneDrive (fun _ => 0) 0 5 0 0) [0x50]).log :=
  (channel_reached_iff oneDrive (fun _ => 0) 0 5 0 0 [0x50] oneDrive_configured
    (by decide)).2.1.mpr (.inr (.inr rfl))

/-- Selecting the primary master writes to port `0x3E6`. -/
theorem drive_selected_elsewhere :
    Access.outb 0x3E6 0xA0 ∈ ((ataProbe oneDrive 0) []).log ∧
      ¬ OnChannel (oneDrive.channels 0) probeRole ((ataProbe oneDrive 0) []).log := by
  have selected : Access.outb 0x3E6 0xA0 ∈ ((ataProbe oneDrive 0) []).log := by decide
  refine ⟨selected, fun reached => ?_⟩
  exact absurd (reached.ports _ selected) (by decide)

end Helios.Ata
