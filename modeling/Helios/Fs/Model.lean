import Helios.Data.Run
import Helios.Data.Search
import Helios.Strings.Model

namespace Helios.Fs

open Helios.Data Helios.Strings

/-! The mount list and the table of open files of `fs.c`.

`ι` is the type of block addresses.  What `kmalloc` answers is an argument of
the call that asks for it, `none` for `NULL`; `live` holds the blocks that are
handed out, and two lists record what became of the blocks for a `file_t`.  A
function returns `none` where the source does not return, on a walk along a
cyclic list.  What the functions print, and the contents of the superblock, are
left out. -/

/-- `mounted_fs_t`; `sb` is the block of the superblock. -/
structure MountedFs (ι : Type) where
  device : CString
  mountpoint : CString
  sb : Option ι
  next : Option ι

/-- `file_t`. -/
structure File where
  inode : Nat := 0
  mode : Nat := 0
  pos : Nat := 0
  flags : Nat := 0
deriving Repr, DecidableEq

structure FileSystem (ι : Type) where
  mounted : ι → MountedFs ι
  file : ι → File
  mountedFsList : Option ι
  openFiles : Nat → Option ι
  live : Finset ι
  allocated : List ι
  freed : List ι

def maxFiles : Nat := 1024

section

variable {ι : Type} [DecidableEq ι]

namespace FileSystem

def link (fs : FileSystem ι) (block : ι) : Option ι := (fs.mounted block).next

def setNext (fs : FileSystem ι) (block : ι) (next : Option ι) : FileSystem ι :=
  { fs with mounted := Function.update fs.mounted block { fs.mounted block with next } }

/-- `kmalloc` hands out a block. -/
def grant (fs : FileSystem ι) (block : ι) : FileSystem ι :=
  { fs with live := insert block fs.live }

def kfree (fs : FileSystem ι) : Option ι → FileSystem ι
  | none => fs
  | some block => { fs with live := fs.live.erase block }

/-- A `file_t` filled in. -/
def fillFile (fs : FileSystem ι) (block : ι) (file : File) : FileSystem ι :=
  { fs.grant block with
    file := Function.update fs.file block file
    allocated := block :: fs.allocated }

def freeFile (fs : FileSystem ι) (block : ι) : FileSystem ι :=
  { fs.kfree (some block) with freed := block :: fs.freed }

def setOpen (fs : FileSystem ι) (index : Nat) (file : Option ι) : FileSystem ι :=
  { fs with openFiles := Function.update fs.openFiles index file }

end FileSystem

open FileSystem

/-- The bytes of `"ram0"` and `"/"`. -/
def ramName : CString := ⟨[114, 97, 109, 48], by decide⟩
def rootName : CString := ⟨[47], by decide⟩

/-- One of the standard streams; a `NULL` answer leaves its entry empty. -/
def initStream (fs : FileSystem ι) (index : Nat) : Option ι → FileSystem ι
  | none => fs
  | some block => (fs.fillFile block { inode := index }).setOpen index (some block)

/-- The root file system; without a superblock it is given up. -/
def initRoot (fs : FileSystem ι) (root sb : Option ι) : FileSystem ι :=
  match root with
  | none => fs
  | some block =>
      let fs := { fs.grant block with
        mounted := Function.update fs.mounted block ⟨ramName, rootName, sb, none⟩ }
      match sb with
      | none => fs.kfree (some block)
      | some sb => { fs.grant sb with mountedFsList := some block }

/-- `init_fs`, with the five answers of `kmalloc`. -/
def initFs (fs : FileSystem ι) (stdin stdout stderr root sb : Option ι) : FileSystem ι :=
  let fs := { fs with openFiles := fun _ => none }
  initRoot (initStream (initStream (initStream fs 0 stdin) 1 stdout) 2 stderr) root sb

/-- `strcmp(fs->mountpoint, mountpoint) == 0`. -/
def mountedAt (fs : FileSystem ι) (mountpoint : CString) (block : ι) : Bool :=
  strcmp (fs.mounted block).mountpoint.val mountpoint.val = 0

/-- A block filled in and put in front of the mount list. -/
def addMount (fs : FileSystem ι) (block : ι) (device mountpoint : CString) : FileSystem ι :=
  { fs.grant block with
    mounted := Function.update fs.mounted block
      ⟨strncpy device 31, strncpy mountpoint 255, none, fs.mountedFsList⟩
    mountedFsList := some block }

variable [Fintype ι]

def mount (fs : FileSystem ι) (device mountpoint _fstype : CString) (granted : Option ι) :
    Option (FileSystem ι × Int) :=
  (search fs.link (mountedAt fs mountpoint) (Fintype.card ι + 1) fs.mountedFsList).map fun
    | some _ => (fs, -1)
    | none =>
        match granted with
        | none => (fs, -1)
        | some block => (addMount fs block device mountpoint, 0)

omit [Fintype ι] in
/-- Taking a block out of the mount list, and freeing it with its superblock. -/
def unlinkMount (fs : FileSystem ι) (prev : Option ι) (block : ι) : FileSystem ι :=
  let after :=
    match prev with
    | some prev => fs.setNext prev (fs.link block)
    | none => { fs with mountedFsList := fs.link block }
  (after.kfree (fs.mounted block).sb).kfree (some block)

def umount (fs : FileSystem ι) (mountpoint : CString) : Option (FileSystem ι × Int) :=
  (searchPrev fs.link (mountedAt fs mountpoint) (Fintype.card ι + 1) none fs.mountedFsList).map fun
    | none => (fs, -1)
    | some (prev, block) => (unlinkMount fs prev block, 0)

/-- The search of `open` for the file system of a path; nothing uses its result. -/
def findMount (fs : FileSystem ι) (path : CString) : Option (Option ι) :=
  search fs.link (fun block => strncmp path.val (fs.mounted block).mountpoint.val
    (fs.mounted block).mountpoint.val.length = 0) (Fintype.card ι + 1) fs.mountedFsList

/-- The bytes of `"/dev/tty"`, `"/dev/console"`, `"/dev/stdout"` and `"/dev/stderr"`. -/
def devTty : List UInt8 := [47, 100, 101, 118, 47, 116, 116, 121]
def devConsole : List UInt8 := [47, 100, 101, 118, 47, 99, 111, 110, 115, 111, 108, 101]
def devStdout : List UInt8 := [47, 100, 101, 118, 47, 115, 116, 100, 111, 117, 116]
def devStderr : List UInt8 := [47, 100, 101, 118, 47, 115, 116, 100, 101, 114, 114]

def inodeOf (path : CString) : Nat :=
  if strcmp path.val devTty = 0 ∨ strcmp path.val devConsole = 0 then 0
  else if strcmp path.val devStdout = 0 then 1
  else if strcmp path.val devStderr = 0 then 2
  else 3

def newFile (path : CString) (flags : Int) : File :=
  { inode := inodeOf path, mode := (flags % 4294967296).toNat, pos := 0, flags := 0 }

omit [DecidableEq ι] [Fintype ι] in
/-- The first free entry of the table. -/
def freeIndex (fs : FileSystem ι) : Option Nat :=
  (List.range maxFiles).find? fun index => (fs.openFiles index).isNone

/-- `open`. -/
def openFile (fs : FileSystem ι) (path : CString) (flags _mode : Int) (granted : Option ι) :
    Option (FileSystem ι × Int) :=
  (findMount fs path).map fun _ =>
    match granted with
    | none => (fs, -1)
    | some block =>
        let fs := fs.fillFile block (newFile path flags)
        match freeIndex fs with
        | none => (fs.freeFile block, -1)
        | some index => (fs.setOpen index (some block), index)

omit [Fintype ι] in
/-- `close`. -/
def closeFile (fs : FileSystem ι) (fd : Int) : FileSystem ι × Int :=
  if fd < 0 ∨ maxFiles ≤ fd then (fs, -1)
  else
    match fs.openFiles fd.toNat with
    | none => (fs, -1)
    | some block => ((fs.freeFile block).setOpen fd.toNat none, 0)

inductive Event (ι : Type) where
  | mount (device mountpoint fstype : CString) (granted : Option ι)
  | umount (mountpoint : CString)
  | openFile (path : CString) (flags mode : Int) (granted : Option ι)
  | closeFile (fd : Int)

/-- A call, with what it returns. -/
def handle (fs : FileSystem ι) : Event ι → Option (FileSystem ι × Int)
  | .mount device mountpoint fstype granted => mount fs device mountpoint fstype granted
  | .umount mountpoint => umount fs mountpoint
  | .openFile path flags mode granted => openFile fs path flags mode granted
  | .closeFile fd => some (closeFile fs fd)

def step (fs : FileSystem ι) (event : Event ι) : Option (FileSystem ι) :=
  (handle fs event).map Prod.fst

end

end Helios.Fs
