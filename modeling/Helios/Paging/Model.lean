import Helios.Data.BitField
import Helios.Data.Run
import Helios.Pmm.Frames

namespace Helios.Paging

open Helios.Data Helios.Pmm

/-! The page directories of `paging.c`.

`pmm_alloc_page` is the frame allocator of `pmm.c`.  The pointer to a page table
is the address of its frame.  While `init_paging` runs, paging is off, and the
stores through it land in that frame; afterwards they go where the current
directory sends them, or fault.  `CR0.WP` stays clear, so the kernel may write
to any page that is present. -/

def pageRw : Nat := 2
def pageUser : Nat := 4

/-! `page_dir_entry_t` and `page_table_entry_t` agree on the fields that the
code uses. -/

def present (word : Nat) : Nat := field word 0 1
def rw (word : Nat) : Nat := field word 1 1
def user (word : Nat) : Nat := field word 2 1
def frame (word : Nat) : Nat := field word 12 20

def setPresent (word value : Nat) : Nat := setField word 0 1 value
def setRw (word value : Nat) : Nat := setField word 1 1 value
def setUser (word value : Nat) : Nat := setField word 2 1 value
def setFrame (word value : Nat) : Nat := setField word 12 20 value

/-- `(flags & flag) ? 1 : 0`. -/
def flagBit (flags flag : Nat) : Nat := if flags &&& flag ≠ 0 then 1 else 0

/-- The four assignments of `map_page` to an entry. -/
def fillEntry (word flags target : Nat) : Nat :=
  setFrame (setUser (setRw (setPresent word 1) (flagBit flags pageRw)) (flagBit flags pageUser)) target

/-- `page_directory_t`; the pointer `0` in `tables` is `NULL`. -/
structure Directory where
  entries : Nat → Nat
  tables : Nat → Nat

/-- The directories, the physical memory that holds their tables, and the frame
allocator. -/
structure PageManager where
  pmm : PmmManager
  memory : Memory
  directories : Nat → Directory
  kernelPageDir : Nat
  currentPageDir : Nat

/-- The directory that `map_page` and `unmap_page` work on. -/
def activeDir (paging : PageManager) : Nat :=
  if paging.currentPageDir = 0 then paging.kernelPageDir else paging.currentPageDir

def directory (paging : PageManager) : Directory := paging.directories (activeDir paging)

def setDirectory (paging : PageManager) (address : Nat) (dir : Directory) : PageManager :=
  { paging with directories := Function.update paging.directories address dir }

def entryWord (memory : Memory) (table index : Nat) : Nat := memory.load32 (table + 4 * index)

def setEntryWord (memory : Memory) (table index word : Nat) : Memory :=
  memory.store32 (table + 4 * index) word

/-- The loop of `init_paging` over the identity table. -/
def identityMap (memory : Memory) (table count : Nat) : Memory :=
  (List.range count).foldl
    (fun memory index =>
      let phys := index * 0x1000
      setEntryWord memory table index
        (setFrame (setRw (setPresent (entryWord memory table index) 1) 1) (phys >>> 12)))
    memory

def pdIndex (vaddr : Nat) : Nat := u32 vaddr >>> 22
def ptIndex (vaddr : Nat) : Nat := u32 vaddr >>> 12 &&& 0x3FF

namespace Direct

/-! The functions with their stores in the frames of the tables, as with paging
off.  They are what the translated ones come to where a table's page is mapped
to itself. -/

def createPageTable (paging : PageManager) : PageManager × Nat :=
  match allocFrame paging.pmm with
  | (pmm, table) =>
      if table = 0 then ({ paging with pmm }, 0)
      else ({ paging with pmm, memory := paging.memory.fill table 4096 0 }, table)

/-- The first half of `map_page`: the table of a directory slot, created on
demand; `0` when there is no frame for it. -/
def ensureTable (paging : PageManager) (slot flags : Nat) : PageManager × Nat :=
  if (directory paging).tables slot ≠ 0 then (paging, (directory paging).tables slot)
  else
    match createPageTable paging with
    | (paging, table) =>
        if table = 0 then (paging, 0)
        else
          let dir := directory paging
          (setDirectory paging (activeDir paging)
            { entries := Function.update dir.entries slot
                (fillEntry (dir.entries slot) flags (table >>> 12))
              tables := Function.update dir.tables slot table }, table)

def mapPage (paging : PageManager) (vaddr paddr flags : Nat) : PageManager :=
  match ensureTable paging (pdIndex vaddr) flags with
  | (paging, table) =>
      if table = 0 then paging
      else
        { paging with
          memory := setEntryWord paging.memory table (ptIndex vaddr)
            (fillEntry (entryWord paging.memory table (ptIndex vaddr)) flags (u32 paddr >>> 12)) }

def unmapPage (paging : PageManager) (vaddr : Nat) : PageManager :=
  let table := (directory paging).tables (pdIndex vaddr)
  if table = 0 then paging
  else
    { paging with
      memory := setEntryWord paging.memory table (ptIndex vaddr)
        (setFrame (setPresent (entryWord paging.memory table (ptIndex vaddr)) 0) 0) }

end Direct

/-- `init_paging`, with paging off until its end; loading `cr3` and setting the
paging bit of `cr0` have no counterpart here. -/
def initPaging (paging : PageManager) : PageManager :=
  let kernel := paging.kernelPageDir
  let paging := setDirectory paging kernel ⟨fun _ => 0, fun _ => 0⟩
  match Direct.createPageTable paging with
  | (paging, table) =>
      if table = 0 then paging
      else
        let dir := paging.directories kernel
        setDirectory { paging with memory := identityMap paging.memory table 1024 } kernel
          { entries := Function.update dir.entries 0
              (setFrame (setRw (setPresent (dir.entries 0) 1) 1) (table >>> 12))
            tables := Function.update dir.tables 0 table }

/-- `switch_page_directory`, without the load of `cr3`. -/
def switchPageDirectory (paging : PageManager) (dir : Nat) : PageManager :=
  if dir = 0 then paging else { paging with currentPageDir := dir }

/-- What a page table entry says about a page. -/
structure Mapping where
  frame : Nat
  rw : Nat
  user : Nat
deriving Repr, DecidableEq

def decode (word : Nat) : Option Mapping :=
  if present word = 0 then none else some ⟨frame word, rw word, user word⟩

/-- The walk of the processor: directory entry, table frame, table entry. -/
def walk (paging : PageManager) (vaddr : Nat) : Option Mapping :=
  let entry := (directory paging).entries (pdIndex vaddr)
  if present entry = 0 then none
  else decode (entryWord paging.memory (frame entry * 4096) (ptIndex vaddr))

/-- Where an access through a pointer lands; `none` is a page fault. -/
def translate (paging : PageManager) (vaddr : Nat) : Option Nat :=
  (walk paging vaddr).map fun mapping => mapping.frame * 4096 + vaddr % 4096

/-! `create_page_table`, `map_page` and `unmap_page` with paging on.  `reach`
says where their accesses land in a state. -/

/-- `create_page_table`; the `memset` stays in one page. -/
def createPageTable (reach : PageManager → Nat → Option Nat) (paging : PageManager) :
    Option (PageManager × Nat) :=
  match allocFrame paging.pmm with
  | (pmm, table) =>
      if table = 0 then some ({ paging with pmm }, 0)
      else
        (reach paging table).map fun address =>
          ({ paging with pmm, memory := paging.memory.fill address 4096 0 }, table)

/-- The first half of `map_page`: the table of a directory slot, created on
demand; `0` when there is no frame for it. -/
def ensureTable (reach : PageManager → Nat → Option Nat) (paging : PageManager)
    (slot flags : Nat) : Option (PageManager × Nat) :=
  if (directory paging).tables slot ≠ 0 then some (paging, (directory paging).tables slot)
  else
    (createPageTable reach paging).map fun (paging, table) =>
      if table = 0 then (paging, 0)
      else
        let dir := directory paging
        (setDirectory paging (activeDir paging)
          { entries := Function.update dir.entries slot
              (fillEntry (dir.entries slot) flags (table >>> 12))
            tables := Function.update dir.tables slot table }, table)

/-- `map_page`; the four assignments to the entry are one store. -/
def mapPageVia (reach : PageManager → Nat → Option Nat) (paging : PageManager)
    (vaddr paddr flags : Nat) : Option PageManager :=
  (ensureTable reach paging (pdIndex vaddr) flags).bind fun (paging, table) =>
    if table = 0 then some paging
    else
      (reach paging (table + 4 * ptIndex vaddr)).map fun address =>
        { paging with
          memory := paging.memory.store32 address
            (fillEntry (paging.memory.load32 address) flags (u32 paddr >>> 12)) }

/-- `unmap_page`, without the `invlpg`; the two assignments are one store. -/
def unmapPageVia (reach : PageManager → Nat → Option Nat) (paging : PageManager) (vaddr : Nat) :
    Option PageManager :=
  let table := (directory paging).tables (pdIndex vaddr)
  if table = 0 then some paging
  else
    (reach paging (table + 4 * ptIndex vaddr)).map fun address =>
      { paging with
        memory := paging.memory.store32 address
          (setFrame (setPresent (paging.memory.load32 address) 0) 0) }

/-- `map_page` behind the walk of the current directory. -/
def mapPage (paging : PageManager) (vaddr paddr flags : Nat) : Option PageManager :=
  mapPageVia translate paging vaddr paddr flags

/-- `unmap_page` behind the walk of the current directory. -/
def unmapPage (paging : PageManager) (vaddr : Nat) : Option PageManager :=
  unmapPageVia translate paging vaddr

/-- A call of `map_page` or `unmap_page`, or a frame taken by another client of
the allocator. -/
inductive Op where
  | map (vaddr paddr flags : Nat)
  | unmap (vaddr : Nat)
  | alloc

/-- `none` is a page fault on the way. -/
def step (paging : PageManager) : Op → Option PageManager
  | .map vaddr paddr flags => mapPage paging vaddr paddr flags
  | .unmap vaddr => unmapPage paging vaddr
  | .alloc => some { paging with pmm := (allocFrame paging.pmm).1 }

def Direct.step (paging : PageManager) : Op → PageManager
  | .map vaddr paddr flags => Direct.mapPage paging vaddr paddr flags
  | .unmap vaddr => Direct.unmapPage paging vaddr
  | .alloc => { paging with pmm := (allocFrame paging.pmm).1 }

/-- The state when `init_paging` is called: `current_page_dir` points to
`kernel_page_dir`. -/
def bootPaging (pmm : PmmManager) (memory : Memory) (directories : Nat → Directory)
    (kernelPageDir : Nat) : PageManager :=
  { pmm, memory, directories, kernelPageDir, currentPageDir := kernelPageDir }

end Helios.Paging
