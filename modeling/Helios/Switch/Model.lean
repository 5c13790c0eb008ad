import Helios.Data.Cpu

namespace Helios.Switch

open Helios.Data

/-! `switch_process` of `switch.asm`.

Memory is flat: the stacks and control blocks that the routine touches belong
to the kernel, which every page directory maps alike.  `current` is the pointer
that `get_current_process` returns. -/

/-- The offsets of `kernel_esp`, `eflags` and `page_dir_phys` in `pcb_t`. -/
def kernelEsp : Word := 0
def eflags : Word := 4
def pageDirPhys : Word := 8

/-- `call get_current_process`, which reads one static variable; `site` is the
address behind the call. -/
def callGetCurrentProcess (cpu : Cpu) (site current : Word) : Cpu :=
  (cpu.push site).pop.1.set .eax current

/-- From the first `push` to `.load_new`. -/
def saveContext : List Instruction :=
  [.push .ebx, .push .ecx, .push .edx, .push .esi, .push .edi, .push .ebp,
    .store .eax kernelEsp .esp,
    .pushfd, .popMemory .eax eflags,
    .readCr3 .edx, .store .eax pageDirPhys .edx]

/-- From `.load_new` to `ret`, without the test for `NULL`. -/
def restoreContext : List Instruction :=
  [.load .edx .eax pageDirPhys, .writeCr3 .edx,
    .load .esp .eax kernelEsp,
    .pop .ebp, .pop .edi, .pop .esi, .pop .edx, .pop .ecx, .pop .ebx,
    .pushMemory .eax eflags, .popfd]

/-- The processor at `.load_new`. -/
def atLoad (cpu : Cpu) (site current : Word) : Cpu :=
  let cpu := (callGetCurrentProcess cpu site current).test .eax
  if cpu.register .eax = 0 then cpu else execute cpu saveContext

/-- From `.load_new` on; `none` is the loop at `.halt`. -/
def loadNew (cpu : Cpu) : Option Cpu :=
  let cpu := (Instruction.exec cpu (.load .eax .esp 28)).test .eax
  if cpu.register .eax = 0 then none else some (execute cpu restoreContext).ret

def switchProcess (cpu : Cpu) (site current : Word) : Option Cpu := loadNew (atLoad cpu site current)

end Helios.Switch
