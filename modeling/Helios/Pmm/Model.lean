import Helios.Data.Bitmap
import Helios.Data.Memory

namespace Helios.Pmm

open Helios.Data

/-! The physical memory manager of `pmm.c`.

The words of `pmm.bitmap` are kept apart from the memory they describe: the
bitmap's own pages are reserved, so no frame that is handed out contains them.
-/

def pageSize : Nat := 4096

/-- `pmm_manager_t`. -/
structure PmmManager where
  totalMemory : Nat
  totalPages : Nat
  freePages : Nat
  bitmap : Bitmap
  initialized : Bool

/-- The number of bitmap words: one bit a page, rounded up to four words. -/
def bitmapSize (totalPages : Nat) : Nat := (u32 (totalPages + 31) / 32 + 3) &&& 0xFFFFFFFC

def bitmapPages (totalPages : Nat) : Nat := u32 (bitmapSize totalPages * 4 + pageSize - 1) / pageSize

/-- `BITMAP_SET(page); pmm.free_pages--`. -/
def take (pmm : PmmManager) (page : Nat) : PmmManager :=
  { pmm with bitmap := pmm.bitmap.set page, freePages := sub32 pmm.freePages 1 }

/-- The loops of `init_pmm` that mark a range of pages as used. -/
def reserve (pmm : PmmManager) (start count : Nat) : PmmManager :=
  (List.range count).foldl (fun pmm index => take pmm (start + index)) pmm

/-- `init_pmm` up to its first loop; `contents` is what memory holds at the
bitmap's address. -/
def clearPmm (contents : Bitmap) (totalMemoryKb : Nat) : PmmManager :=
  let totalMemory := u32 (totalMemoryKb * 1024)
  let totalPages := totalMemory / pageSize
  { totalMemory, totalPages, freePages := totalPages,
    bitmap := contents.zero (bitmapSize totalPages), initialized := false }

def initPmm (contents : Bitmap) (totalMemoryKb : Nat) : PmmManager :=
  let pmm := clearPmm contents totalMemoryKb
  let pmm := reserve pmm 0 256
  let pmm := reserve pmm (0x200000 / pageSize) (bitmapPages pmm.totalPages)
  let pmm := reserve pmm (0x100000 / pageSize) 256
  { pmm with initialized := true }

/-- The search loop of `alloc_frame`. -/
def firstFree (pmm : PmmManager) : Option Nat :=
  (List.range pmm.totalPages).find? fun page => !pmm.bitmap.test page

/-- `alloc_frame`; the address `0` is `NULL`. -/
def allocFrame (pmm : PmmManager) : PmmManager × Nat :=
  if pmm.initialized = false then (pmm, 0)
  else if pmm.freePages = 0 then (pmm, 0)
  else
    match firstFree pmm with
    | none => (pmm, 0)
    | some page => (take pmm page, u32 (page * pageSize))

/-- `BITMAP_CLEAR(page); pmm.free_pages++`. -/
def give (pmm : PmmManager) (page : Nat) : PmmManager :=
  { pmm with bitmap := pmm.bitmap.clear page, freePages := u32 (pmm.freePages + 1) }

def freeFrame (pmm : PmmManager) (frame : Nat) : PmmManager :=
  if pmm.initialized = false ∨ frame = 0 then pmm
  else
    let index := frame / pageSize
    if pmm.totalPages ≤ index then pmm
    else if pmm.bitmap.test index = false then pmm
    else give pmm index

end Helios.Pmm
