import Helios.Data.Run
import Helios.Data.Search
import Helios.Strings.Model

namespace Helios.Device

open Helios.Data Helios.Strings

/-! The device list of `device.c`.

`ι` is the type of the `device_t` in memory, and `β` that of the functions that
their operations point to.  A function returns `none` where the source does not
return, on a walk along a cyclic list.  What the functions print is left out. -/

/-- The operations of `device_ops_t` that `device.c` calls; `none` is `NULL`. -/
structure DeviceOps (β : Type) where
  init : Option β
  read : Option β
  write : Option β
  seek : Option β
  ioctl : Option β

/-- What the owner of a `device_t` fills in. -/
structure DeviceInfo (β : Type) where
  name : CString
  privateData : Nat
  ops : Option (DeviceOps β)

structure ListedDevice (ι β : Type) extends DeviceInfo β where
  next : Option ι

structure DeviceManager (ι β : Type) where
  device : ι → ListedDevice ι β
  deviceList : Option ι

inductive Arguments where
  | init
  | read (buf count : Nat)
  | write (buf count : Nat)
  | seek (offset : Nat) (whence : Int)
  | ioctl (cmd : Int) (arg : Nat)
deriving Repr, DecidableEq

/-- A call through a pointer of `ops`, whose result is returned. -/
structure Invocation (β : Type) where
  operation : β
  privateData : Nat
  arguments : Arguments

section

variable {ι β : Type}

/-- The call of an operation, if there is one. -/
def invoke (info : DeviceInfo β) (select : DeviceOps β → Option β) (arguments : Arguments) :
    Option (Invocation β) :=
  (info.ops.bind select).map fun operation => ⟨operation, info.privateData, arguments⟩

namespace DeviceManager

def link (manager : DeviceManager ι β) (device : ι) : Option ι := (manager.device device).next

def setNext [DecidableEq ι] (manager : DeviceManager ι β) (device : ι) (next : Option ι) :
    DeviceManager ι β :=
  { manager with
    device := Function.update manager.device device { manager.device device with next } }

end DeviceManager

open DeviceManager

/-- `strcmp(dev->name, name) == 0`. -/
def named (manager : DeviceManager ι β) (name : CString) (device : ι) : Bool :=
  strcmp (manager.device device).name.val name.val = 0

variable [Fintype ι]

def getDevice (manager : DeviceManager ι β) (name : CString) : Option (Option ι) :=
  search manager.link (named manager name) (Fintype.card ι + 1) manager.deviceList

/-- The common body of `device_read`, `device_write`, `device_seek` and
`device_ioctl`; `some none` is `return -1`. -/
def deviceCall (manager : DeviceManager ι β) (name : CString) (select : DeviceOps β → Option β)
    (arguments : Arguments) : Option (Option (Invocation β)) :=
  (getDevice manager name).map fun found =>
    found.bind fun device => invoke (manager.device device).toDeviceInfo select arguments

def deviceRead (manager : DeviceManager ι β) (name : CString) (buf count : Nat) :=
  deviceCall manager name DeviceOps.read (.read buf count)

def deviceWrite (manager : DeviceManager ι β) (name : CString) (buf count : Nat) :=
  deviceCall manager name DeviceOps.write (.write buf count)

def deviceSeek (manager : DeviceManager ι β) (name : CString) (offset : Nat) (whence : Int) :=
  deviceCall manager name DeviceOps.seek (.seek offset whence)

def deviceIoctl (manager : DeviceManager ι β) (name : CString) (cmd : Int) (arg : Nat) :=
  deviceCall manager name DeviceOps.ioctl (.ioctl cmd arg)

variable [DecidableEq ι]

/-- `register_device`, with its code and the call of `init`. -/
def registerDevice (manager : DeviceManager ι β) :
    Option ι → Option (DeviceManager ι β × Int × Option (Invocation β))
  | none => some (manager, -1, none)
  | some device =>
      (search manager.link (named manager (manager.device device).name) (Fintype.card ι + 1)
        manager.deviceList).map fun
        | some _ => (manager, -1, none)
        | none =>
            ({ manager.setNext device manager.deviceList with deviceList := some device }, 0,
              invoke (manager.device device).toDeviceInfo DeviceOps.init .init)

/-- `unregister_device`, with its code and the device given to `kfree`. -/
def unregisterDevice (manager : DeviceManager ι β) (name : CString) :
    Option (DeviceManager ι β × Int × Option ι) :=
  (searchPrev manager.link (named manager name) (Fintype.card ι + 1) none manager.deviceList).map fun
    | none => (manager, -1, none)
    | some (none, device) => ({ manager with deviceList := manager.link device }, 0, some device)
    | some (some prev, device) => (manager.setNext prev (manager.link device), 0, some device)

/-- A call of `device.c`, or a client writing a `device_t`. -/
inductive Event (ι β : Type) where
  | modify (device : ι) (contents : ListedDevice ι β)
  | registerDevice (device : Option ι)
  | unregisterDevice (name : CString)
  | getDevice (name : CString)
  | deviceRead (name : CString) (buf count : Nat)
  | deviceWrite (name : CString) (buf count : Nat)
  | deviceSeek (name : CString) (offset : Nat) (whence : Int)
  | deviceIoctl (name : CString) (cmd : Int) (arg : Nat)

inductive Output (ι β : Type) where
  | nothing
  | registered (code : Int) (init : Option (Invocation β))
  | unregistered (code : Int) (freed : Option ι)
  | found (device : Option ι)
  | called (invocation : Option (Invocation β))

def handle (manager : DeviceManager ι β) :
    Event ι β → Option (DeviceManager ι β × Output ι β)
  | .modify device contents =>
      some ({ manager with device := Function.update manager.device device contents }, .nothing)
  | .registerDevice device =>
      (registerDevice manager device).map fun (after, code, init) => (after, .registered code init)
  | .unregisterDevice name =>
      (unregisterDevice manager name).map fun (after, code, freed) => (after, .unregistered code freed)
  | .getDevice name => (getDevice manager name).map fun device => (manager, .found device)
  | .deviceRead name buf count =>
      (deviceRead manager name buf count).map fun invocation => (manager, .called invocation)
  | .deviceWrite name buf count =>
      (deviceWrite manager name buf count).map fun invocation => (manager, .called invocation)
  | .deviceSeek name offset whence =>
      (deviceSeek manager name offset whence).map fun invocation => (manager, .called invocation)
  | .deviceIoctl name cmd arg =>
      (deviceIoctl manager name cmd arg).map fun invocation => (manager, .called invocation)

def step (manager : DeviceManager ι β) (event : Event ι β) : Option (DeviceManager ι β) :=
  (handle manager event).map Prod.fst

end

end Helios.Device
