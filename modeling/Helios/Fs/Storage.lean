import Helios.Fs.Seek
import Helios.Fs.Streams
import Helios.Heap.Clients
import Helios.Strings.Located

namespace Helios.Fs

open Helios.Data Helios.Strings Helios.Syscall

/-! `fs.c` over the memory of the kernel heap.

The records of the file system are payloads that `kmalloc` has handed out, and
every field of them is read from the memory and written to it.  The arguments
of the calls are strings outside of the heap.  Left out are what the functions
print, and the bytes that `init_fs` writes through a `NULL` answer for a
standard stream. -/

abbrev Address := Fin 4294967296

/-- The variables `mounted_fs_list` and `open_files`, over the heap. -/
structure Storage where
  session : Heap.Session
  mountedFsList : Option Address
  openFiles : Nat → Option Address

/-- `sizeof(file_t)`, `sizeof(mounted_fs_t)` and `sizeof(superblock_t)`. -/
def fileSize : Nat := 24
def mountSize : Nat := 304
def superblockSize : Nat := 68

def pointerAt (memory : Memory) (address : Nat) : Option Address :=
  if memory.load32 address = 0 then none
  else some (Fin.ofNat 4294967296 (memory.load32 address))

/-- The word of a pointer. -/
def pointerWord : Option Address → Nat
  | none => 0
  | some block => block

/-- The bytes of `"rootfs"`. -/
def rootVolume : CString := ⟨[114, 111, 111, 116, 102, 115], by decide⟩

/-- The `memset` of a `file_t` and the assignments to its fields. -/
def storeFile (memory : Memory) (block : Address) (file : File) : Memory :=
  let memory := memory.fill block fileSize 0
  let memory := memory.store32 (block + 4) file.mode
  let memory := memory.store32 (block + 8) file.pos
  let memory := memory.store32 (block + 12) file.flags
  memory.store32 block file.inode

/-- The `mounted_fs_t` of `mount`. -/
def storeMount (memory : Memory) (block : Address) (device mountpoint : CString)
    (next : Option Address) : Memory :=
  let memory := memory.fill block mountSize 0
  let memory := strncpyAt memory block device 31
  let memory := strncpyAt memory (block + 32) mountpoint 255
  memory.store32 (block + 300) (pointerWord next)

/-- The `mounted_fs_t` of `init_fs`, before its superblock. -/
def storeRoot (memory : Memory) (block : Address) : Memory :=
  let memory := memory.fill block mountSize 0
  let memory := strcpyAt memory block ramName
  let memory := strcpyAt memory (block + 32) rootName
  memory.store32 (block + 300) 0

def storeSuperblock (memory : Memory) (block : Address) : Memory :=
  let memory := memory.fill block superblockSize 0
  let memory := memory.store32 block 0xDEADBEEF
  let memory := memory.store32 (block + 4) 512
  let memory := memory.store32 (block + 8) 1024
  let memory := memory.store32 (block + 12) 1000
  let memory := memory.store32 (block + 16) 128
  let memory := memory.store32 (block + 20) 120
  let memory := memory.store32 (block + 24) 1
  let memory := memory.store32 (block + 28) 2
  let memory := memory.store32 (block + 32) 1
  strcpyAt memory (block + 36) rootVolume

/-- The search of `open` for the file system of a path; nothing uses its result. -/
def findMountAt (memory : Memory) (path : CString) : Nat → Option Address → Option (Option Address)
  | 0, _ => none
  | _ + 1, none => some none
  | fuel + 1, some block =>
      (textAt memory 4294967296 (block + 32)).bind fun mountpoint =>
        if strncmp path.val mountpoint mountpoint.length = 0 then some (some block)
        else findMountAt memory path fuel (pointerAt memory (block + 300))

section

variable (session : Heap.Session)

/-- A call of `kmalloc`, with the block that it hands out. -/
def allocate (size : Nat) : Option (Heap.Session × Option Address) :=
  (Heap.kmalloc session.heap size).map fun (heap, pointer) =>
    if pointer = 0 then (⟨heap, session.live⟩, none)
    else (⟨heap, ⟨pointer, size⟩ :: session.live⟩, some (Fin.ofNat 4294967296 pointer))

/-- A call of `kfree`. -/
def release (block : Address) : Heap.Session :=
  ⟨Heap.kfree session.heap block, session.live.eraseP (·.pointer = block)⟩

/-- The same for a pointer that may be `NULL`. -/
def releaseSome : Option Address → Heap.Session
  | none => session
  | some block => release session block

/-- Stores in the memory. -/
def storing (store : Memory → Memory) : Heap.Session :=
  Heap.setMemory session (store session.heap.memory)

/-- One of the standard streams of `init_fs`. -/
def writeStream (index : Nat) : Option Address → Heap.Session
  | none => session
  | some block => storing session fun memory => storeFile memory block { inode := index }

/-- The table with the standard streams alone. -/
def standardFiles (stdin stdout stderr : Option Address) (index : Nat) : Option Address :=
  if index = 0 then stdin else if index = 1 then stdout else if index = 2 then stderr else none

end

namespace Storage

/-- `init_fs`. -/
def initFs (session : Heap.Session) : Option Storage := do
  let (session, stdin) ← allocate session fileSize
  let (session, stdout) ← allocate session fileSize
  let (session, stderr) ← allocate session fileSize
  let session := writeStream (writeStream (writeStream session 0 stdin) 1 stdout) 2 stderr
  let openFiles := standardFiles stdin stdout stderr
  let (session, root) ← allocate session mountSize
  match root with
  | none => some ⟨session, none, openFiles⟩
  | some block =>
      let session := storing session fun memory => storeRoot memory block
      let (session, sb) ← allocate session superblockSize
      let session := storing session fun memory => memory.store32 (block + 288) (pointerWord sb)
      match sb with
      | none => some ⟨release session block, none, openFiles⟩
      | some sb =>
          some ⟨storing session fun memory => storeSuperblock memory sb, some block, openFiles⟩

variable (storage : Storage)

def memory : Memory := storage.session.heap.memory

def link (block : Address) : Option Address := pointerAt storage.memory (block + 300)

def superblock (block : Address) : Option Address := pointerAt storage.memory (block + 288)

def mountedAt (mountpoint : CString) (block : Address) : Bool :=
  strcmpAt storage.memory (block + 32) mountpoint.val = 0

def mount (device mountpoint _fstype : CString) : Option (Storage × Int) := do
  match ← search storage.link (storage.mountedAt mountpoint) (Fintype.card Address + 1)
      storage.mountedFsList with
  | some _ => some (storage, -1)
  | none =>
      let (session, granted) ← allocate storage.session mountSize
      match granted with
      | none => some ({ storage with session }, -1)
      | some block =>
          let session := storing session fun memory =>
            storeMount memory block device mountpoint storage.mountedFsList
          some ({ storage with session, mountedFsList := some block }, 0)

/-- Taking a mount out of the list. -/
def unlinked (prev : Option Address) (block : Address) : Storage :=
  match prev with
  | some prev =>
      { storage with
        session := storing storage.session fun memory =>
          memory.store32 (prev + 300) (pointerWord (storage.link block)) }
  | none => { storage with mountedFsList := storage.link block }

def umount (mountpoint : CString) : Option (Storage × Int) := do
  match ← searchPrev storage.link (storage.mountedAt mountpoint) (Fintype.card Address + 1) none
      storage.mountedFsList with
  | none => some (storage, -1)
  | some (prev, block) =>
      let storage := storage.unlinked prev block
      let session := releaseSome storage.session (storage.superblock block)
      some ({ storage with session := release session block }, 0)

/-- `open`. -/
def openFile (path : CString) (flags _mode : Int) : Option (Storage × Int) := do
  let _ ← findMountAt storage.memory path (Fintype.card Address + 1) storage.mountedFsList
  let (session, granted) ← allocate storage.session fileSize
  match granted with
  | none => some ({ storage with session }, -1)
  | some block =>
      let session := storing session fun memory => storeFile memory block (newFile path flags)
      match (List.range maxFiles).find? fun index => (storage.openFiles index).isNone with
      | none => some ({ storage with session := release session block }, -1)
      | some index =>
          let openFiles := Function.update storage.openFiles index (some block)
          some ({ storage with session, openFiles }, index)

/-- The block of an open descriptor. -/
def blockOf (fd : Int) : Option Address :=
  if fd < 0 ∨ maxFiles ≤ fd then none else storage.openFiles fd.toNat

/-- `close`. -/
def closeFile (fd : Int) : Storage × Int :=
  match storage.blockOf fd with
  | none => (storage, -1)
  | some block =>
      let openFiles := Function.update storage.openFiles fd.toNat none
      ({ storage with session := release storage.session block, openFiles }, 0)

def setPos (block : Address) (pos : Nat) : Storage :=
  { storage with
    session := storing storage.session fun memory => memory.store32 (block + 8) pos }

def seek (fd offset whence : Int) : Storage × Int :=
  match storage.blockOf fd with
  | none => (storage, -1)
  | some block =>
      let pos := storage.memory.load32 (block + 8)
      if whence = 0 then (storage.setPos block (word offset), signed (word offset))
      else if whence = 1 then
        (storage.setPos block (word (pos + offset)), signed (word (pos + offset)))
      else if whence = 2 then (storage, signed pos)
      else (storage, -1)

def read (behind : UInt8) (console : Console) (fd : Int) (buf count : Nat) : Port (Console × Int) :=
  match storage.blockOf fd with
  | none => pure (console, -1)
  | some block =>
      if storage.memory.load32 block = 0 then sysRead behind console fd buf count
      else pure (console, 0)

def write (console : Console) (fd : Int) (buf count : Nat) : Console × Int :=
  match storage.blockOf fd with
  | none => (console, -1)
  | some block =>
      if storage.memory.load32 block = 1 ∨ storage.memory.load32 block = 2 then
        sysWrite console fd buf count
      else (console, 0)

end Storage

inductive Call where
  | mount (device mountpoint fstype : CString)
  | umount (mountpoint : CString)
  | openFile (path : CString) (flags mode : Int)
  | closeFile (fd : Int)
  | seek (fd offset whence : Int)

namespace Storage

variable (storage : Storage)

def handle : Call → Option (Storage × Int)
  | .mount device mountpoint fstype => storage.mount device mountpoint fstype
  | .umount mountpoint => storage.umount mountpoint
  | .openFile path flags mode => storage.openFile path flags mode
  | .closeFile fd => some (storage.closeFile fd)
  | .seek fd offset whence => some (storage.seek fd offset whence)

/-- The blocks that the file system can get at. -/
inductive Holds : Address → Prop
  | mounted {block : Address} (member : OnChain storage.link storage.mountedFsList block) :
      Holds block
  | superblock {block sb : Address} (member : OnChain storage.link storage.mountedFsList block)
      (stored : storage.superblock block = some sb) : Holds sb
  | opened {index : Nat} {block : Address} (here : storage.openFiles index = some block) :
      Holds block

/-- What the rest of the kernel does to the heap: it frees none of the blocks of
the file system and writes into none of them. -/
inductive Client : Heap.Session → Prop
  | kmalloc {heap : Heap.KernelHeap} {pointer : Nat} (size : Nat) (bound : size ≤ 0xFFFFFFE8)
      (result : Heap.kmalloc storage.session.heap size = some (heap, pointer)) :
      Client ⟨heap, if pointer = 0 then storage.session.live
        else ⟨pointer, size⟩ :: storage.session.live⟩
  | kfree (allocation : Heap.Allocation) (live : allocation ∈ storage.session.live)
      (foreign : ∀ block, storage.Holds block → allocation.pointer ≠ block) :
      Client ⟨Heap.kfree storage.session.heap allocation.pointer,
        storage.session.live.erase allocation⟩
  | write (allocation : Heap.Allocation) (live : allocation ∈ storage.session.live)
      (foreign : ∀ block, storage.Holds block → allocation.pointer ≠ block)
      (position : Nat) (byte : UInt8)
      (inside : Heap.InPayload storage.session.heap allocation position) :
      Client (Heap.setMemory storage.session (storage.session.heap.memory.store8 position byte))

inductive Step : Storage → Storage → Prop
  | called {storage next : Storage} {call : Call} {code : Int}
      (returned : storage.handle call = some (next, code)) : Step storage next
  | client {storage : Storage} {session : Heap.Session} (moved : storage.Client session) :
      Step storage { storage with session }

end Storage

end Helios.Fs
