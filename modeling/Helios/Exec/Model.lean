import Helios.Paging.Addressable
import Helios.Process.Model
import Helios.Strings.Model

namespace Helios.Exec

open Helios.Data Helios.Pmm Helios.Paging Helios.Process Helios.Strings

/-! `ramdisk_load` and `sys_execve` of `syscall.c`.

`vmm_map_page` is `map_page`, and `pmm_alloc_page` is `alloc_frame`.  The stores of
`map_page` and the copy into the new page, one byte after the other, go through
the current directory; an access to a page that is not present is a fault. -/

/-- An element of `ramdisk`; `none` is the `NULL` name, `0` the `NULL` data. -/
structure RamdiskEntry where
  name : Option (List UInt8)
  data : Nat
  size : Nat

abbrev Ramdisk := Fin 8 → RamdiskEntry

def userBase : Nat := 0x400000
def stackVaddr : Nat := 0xBFC00000

/-- `PAGE_USER | PAGE_PRESENT | PAGE_RW`. -/
def userFlags : Nat := 4 ||| 1 ||| 2

/-- The loop of `ramdisk_load` over the entries: it stops at a `NULL` name. -/
def searchFrom (path : List UInt8) : List RamdiskEntry → Option RamdiskEntry
  | [] => none
  | entry :: rest =>
      match entry.name with
      | none => none
      | some name => if strcmp name path = 0 then some entry else searchFrom path rest

def search (ramdisk : Ramdisk) (path : List UInt8) : Option RamdiskEntry :=
  searchFrom path (List.ofFn ramdisk)

/-- The loop of `ramdisk_register` over the entries, if it gets to one with the
name or without a name. -/
def registerFrom (name : List UInt8) (code size : Nat) : List RamdiskEntry → Option (List RamdiskEntry)
  | [] => none
  | entry :: rest =>
      match entry.name with
      | some other =>
          if strcmp other name = 0 then some ({ entry with data := code, size } :: rest)
          else (registerFrom name code size rest).map (entry :: ·)
      | none => some (⟨some name, code, size⟩ :: rest)

def ramdiskRegister (ramdisk : Ramdisk) (name : List UInt8) (code size : Nat) : Ramdisk × Int :=
  match registerFrom name code size (List.ofFn ramdisk) with
  | none => (ramdisk, -1)
  | some entries => (fun slot => entries.getD slot.val ⟨none, 0, 0⟩, 0)

/-- One iteration of `memcpy`. -/
def copyByte (paging : PageManager) (dest src : Nat) : Option PageManager :=
  (translate paging src).bind fun source =>
    (translate paging dest).map fun target =>
      { paging with memory := paging.memory.store8 target (paging.memory source) }

def memcpy (paging : PageManager) (dest src len : Nat) : Option PageManager :=
  (List.range len).foldlM (fun paging index => copyByte paging (u32 (dest + index)) (u32 (src + index)))
    paging

/-- How a part of `ramdisk_load` ends: by a fault, by `return -1`, or by going
on behind it. -/
inductive Outcome where
  | fault
  | failed (paging : PageManager)
  | done (paging : PageManager)

def Outcome.state : Outcome → Option PageManager
  | .fault => none
  | .failed paging => some paging
  | .done paging => some paging

/-- `map_page` as a load calls it: a fault, or the state behind the call. -/
abbrev MapPage := PageManager → Nat → Nat → Nat → Option PageManager

/-- The body of the loop over the code pages. -/
def loadPage (map : MapPage) (paging : PageManager) (code size off : Nat) : Outcome :=
  let vaddr := u32 (userBase + off)
  match allocFrame paging.pmm with
  | (pmm, page) =>
      if page = 0 then .failed { paging with pmm }
      else
        let chunk := if sub32 size off > 0x1000 then 0x1000 else sub32 size off
        match (map { paging with pmm } vaddr page userFlags).bind
            fun paging => memcpy paging vaddr (u32 (code + off)) chunk with
        | none => .fault
        | some paging => .done paging

/-- The loop over the code pages, for at most `fuel` tests of its condition. -/
def loadPages (map : MapPage) : Nat → PageManager → Nat → Nat → Nat → Option Outcome
  | 0, _, _, _, _ => none
  | fuel + 1, paging, code, size, off =>
      if off < size then
        match loadPage map paging code size off with
        | .done paging => loadPages map fuel paging code size (u32 (off + 0x1000))
        | ended => some ended
      else some (.done paging)

def loadStack (map : MapPage) (paging : PageManager) : Outcome :=
  match allocFrame paging.pmm with
  | (pmm, page) =>
      if page = 0 then .failed { paging with pmm }
      else
        match map { paging with pmm } (stackVaddr - 0x1000) page userFlags with
        | none => .fault
        | some paging => .done paging

/-- The body of `ramdisk_load`; every test of the loop condition but the last
takes a frame, which bounds their number. -/
def loadImage (map : MapPage) (ramdisk : Ramdisk) (path : List UInt8) (paging : PageManager) :
    Option Outcome :=
  match search ramdisk path with
  | none => some (.failed paging)
  | some entry =>
      if entry.data = 0 then some (.failed paging)
      else
        match loadPages map (paging.pmm.totalPages + 1) paging entry.data entry.size 0 with
        | some (.done paging) => some (loadStack map paging)
        | ended => ended

def ramdiskLoad (ramdisk : Ramdisk) (path : List UInt8) (paging : PageManager) : Option Outcome :=
  loadImage mapPage ramdisk path paging

/-- `sys_execve` returns a code, with the paging state and the process that
`get_current_process` points to. -/
inductive Execved where
  | fault
  | returned (paging : PageManager) (current : Pcb) (code : Int)

def sysExecve (ramdisk : Ramdisk) (path : List UInt8) (paging : PageManager) (current : Pcb) :
    Option Execved :=
  (ramdiskLoad ramdisk path paging).map fun
    | .fault => .fault
    | .failed paging => .returned paging current (-1)
    | .done paging => .returned paging { current with eip := userBase, esp := stackVaddr } 0

end Helios.Exec
