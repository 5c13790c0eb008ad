import Helios.Device.Model

namespace Helios.Device

open Helios.Data Helios.Strings DeviceManager

/-! The device list as a finite map from names to devices. -/

/-- What the devices contain, and the device registered under each name. -/
structure Registry (ι β : Type) where
  info : ι → DeviceInfo β
  lookup : CString → Option ι

section

variable {ι β : Type}

namespace Registry

def assign (registry : Registry ι β) (name : CString) (device : Option ι) : Registry ι β :=
  { registry with lookup := Function.update registry.lookup name device }

def call (registry : Registry ι β) (name : CString) (select : DeviceOps β → Option β)
    (arguments : Arguments) : Option (Invocation β) :=
  (registry.lookup name).bind fun device => invoke (registry.info device) select arguments

/-- The meaning of a call. -/
def handle [DecidableEq ι] (registry : Registry ι β) : Event ι β → Registry ι β × Output ι β
  | .modify device contents =>
      ({ registry with info := Function.update registry.info device contents.toDeviceInfo }, .nothing)
  | .registerDevice none => (registry, .registered (-1) none)
  | .registerDevice (some device) =>
      match registry.lookup (registry.info device).name with
      | some _ => (registry, .registered (-1) none)
      | none =>
          (registry.assign (registry.info device).name (some device),
            .registered 0 (invoke (registry.info device) DeviceOps.init .init))
  | .unregisterDevice name =>
      match registry.lookup name with
      | none => (registry, .unregistered (-1) none)
      | some device =>
          (registry.assign name none, .unregistered 0 (some device))
  | .getDevice name => (registry, .found (registry.lookup name))
  | .deviceRead name buf count =>
      (registry, .called (registry.call name DeviceOps.read (.read buf count)))
  | .deviceWrite name buf count =>
      (registry, .called (registry.call name DeviceOps.write (.write buf count)))
  | .deviceSeek name offset whence =>
      (registry, .called (registry.call name DeviceOps.seek (.seek offset whence)))
  | .deviceIoctl name cmd arg =>
      (registry, .called (registry.call name DeviceOps.ioctl (.ioctl cmd arg)))

def run [DecidableEq ι] (registry : Registry ι β) (events : List (Event ι β)) : Registry ι β :=
  events.foldl (fun registry event => (registry.handle event).1) registry

/-- The order of the list after a call: a new device comes first, and one that
is unregistered leaves the others as they are. -/
def arrange (registry : Registry ι β) (list : List ι) : Event ι β → List ι
  | .registerDevice (some device) =>
      if registry.lookup (registry.info device).name = none then device :: list else list
  | .unregisterDevice name => list.filter fun device => (registry.info device).name ≠ name
  | _ => list

end Registry

/-- The list holds exactly the devices of the map. -/
structure Represents (manager : DeviceManager ι β) (registry : Registry ι β) (list : List ι) :
    Prop where
  chain : Chain manager.link manager.deviceList list
  distinct : (list.map fun device => (manager.device device).name).Nodup
  info : ∀ device, (manager.device device).toDeviceInfo = registry.info device
  lookup : ∀ name device,
    registry.lookup name = some device ↔ device ∈ list ∧ (registry.info device).name = name

/-- A registered device keeps its name and its link. -/
def Admissible (manager : DeviceManager ι β) : Event ι β → Prop
  | .modify device contents => ¬ OnChain manager.link manager.deviceList device ∨
      contents.name = (manager.device device).name ∧ contents.next = (manager.device device).next
  | _ => True

variable {manager : DeviceManager ι β} {registry : Registry ι β} {list front back : List ι}
variable {name : CString} {device : ι} {next : Option ι}

theorem lookup_assign_same : (registry.assign name next).lookup name = next := by
  simp [Registry.assign]

theorem lookup_assign_other {other : CString} (different : other ≠ name) :
    (registry.assign name next).lookup other = registry.lookup other := by
  simp [Registry.assign, different]

theorem info_assign : (registry.assign name next).info = registry.info := rfl

theorem named_iff : named manager name device = true ↔ (manager.device device).name = name := by
  have compared := strcmp_eq_zero (manager.device device).name.property name.property
  rw [named, decide_eq_true_iff, compared, Subtype.ext_iff]

theorem setNext_toDeviceInfo [DecidableEq ι] {other : ι} :
    ((manager.setNext device next).device other).toDeviceInfo =
      (manager.device other).toDeviceInfo := by
  by_cases same : other = device
  · subst same
    simp [setNext]
  · simp [setNext, same]

theorem link_setNext_same [DecidableEq ι] : (manager.setNext device next).link device = next := by
  simp [link, setNext]

theorem link_setNext_other [DecidableEq ι] {other : ι} (different : other ≠ device) :
    (manager.setNext device next).link other = manager.link other := by
  simp [link, setNext, different]

namespace Represents

theorem name_eq (represents : Represents manager registry list) (device : ι) :
    (manager.device device).name = (registry.info device).name :=
  congrArg DeviceInfo.name (represents.info device)

/-- The device of a name is the first one on the list that has it. -/
theorem find_eq (represents : Represents manager registry list) (name : CString) :
    list.find? (named manager name) = registry.lookup name := by
  cases first : list.find? (named manager name) with
  | some device =>
      have here := named_iff.mp (List.find?_some first)
      rw [represents.name_eq] at here
      exact ((represents.lookup name device).mpr ⟨List.mem_of_find?_eq_some first, here⟩).symm
  | none =>
      cases known : registry.lookup name with
      | none => rfl
      | some device =>
          obtain ⟨member, here⟩ := (represents.lookup name device).mp known
          rw [← represents.name_eq] at here
          exact absurd (named_iff.mpr here) (List.find?_eq_none.mp first device member)

theorem length_lt [Fintype ι] (represents : Represents manager registry list) :
    list.length < Fintype.card ι + 1 :=
  Nat.lt_succ_of_le represents.chain.nodup.length_le_card

theorem search_eq [Fintype ι] (represents : Represents manager registry list) (name : CString) :
    search manager.link (named manager name) (Fintype.card ι + 1) manager.deviceList =
      some (registry.lookup name) := by
  rw [Data.search_eq represents.chain represents.length_lt, represents.find_eq]

theorem deviceCall_eq [Fintype ι] (represents : Represents manager registry list) (name : CString)
    (select : DeviceOps β → Option β) (arguments : Arguments) :
    deviceCall manager name select arguments = some (registry.call name select arguments) := by
  rw [deviceCall, getDevice, represents.search_eq, Option.map_some, Registry.call]
  congr 1
  cases registry.lookup name with
  | none => rfl
  | some device => simp only [Option.bind_some, represents.info]

theorem modify [DecidableEq ι] (represents : Represents manager registry list) {contents : ListedDevice ι β}
    (admissible : Admissible manager (.modify device contents)) :
    Represents { manager with device := Function.update manager.device device contents }
      (registry.handle (.modify device contents)).1 list := by
  have keeps : ∀ other ∈ list,
      (Function.update manager.device device contents other).next = (manager.device other).next ∧
        (Function.update manager.device device contents other).name =
          (manager.device other).name := by
    intro other member
    by_cases same : other = device
    · subst same
      cases admissible with
      | inl unlinked => exact absurd (represents.chain.mem_iff.mpr member) unlinked
      | inr kept => simp [kept]
    · simp [same]
  refine ⟨represents.chain.congr fun other member => (keeps other member).1, ?_, ?_, ?_⟩
  · have names := represents.distinct
    rwa [List.map_congr_left fun other member => (keeps other member).2.symm] at names
  · intro other
    by_cases same : other = device
    · subst same
      simp [Registry.handle]
    · simp [Registry.handle, same, represents.info]
  · intro name other
    rw [Registry.handle, represents.lookup]
    refine and_congr_right fun member => ?_
    have kept := (keeps other member).2
    by_cases same : other = device
    · subst same
      simp only [Function.update_self] at kept ⊢
      rw [kept, represents.name_eq]
    · simp only [Function.update_of_ne same]

theorem register [DecidableEq ι] (represents : Represents manager registry list)
    (fresh : registry.lookup (registry.info device).name = none) :
    Represents { manager.setNext device manager.deviceList with deviceList := some device }
      (registry.assign (registry.info device).name (some device)) (device :: list) := by
  have absent : ∀ other ∈ list, (registry.info other).name ≠ (registry.info device).name := by
    intro other member same
    have known := (represents.lookup _ other).mpr ⟨member, same⟩
    rw [fresh] at known
    cases known
  have apart : device ∉ list := fun member => absent device member rfl
  refine ⟨?_, ?_, fun other => setNext_toDeviceInfo.trans (represents.info other), ?_⟩
  · refine represents.chain.push (fun other member => ?_) link_setNext_same
    exact link_setNext_other fun same => apart (same ▸ member)
  · have names : ∀ other, ((manager.setNext device manager.deviceList).device other).name =
        (manager.device other).name := fun other => congrArg DeviceInfo.name setNext_toDeviceInfo
    simp only [names]
    refine List.nodup_cons.mpr ⟨fun repeated => ?_, represents.distinct⟩
    obtain ⟨other, member, same⟩ := List.mem_map.mp repeated
    exact absent other member (by rw [← represents.name_eq, ← represents.name_eq]; exact same)
  · intro name other
    by_cases same : name = (registry.info device).name
    · subst same
      rw [lookup_assign_same, info_assign, Option.some.injEq, List.mem_cons]
      constructor
      · intro equal
        subst equal
        exact ⟨.inl rfl, rfl⟩
      · rintro ⟨here, equal⟩
        exact (here.resolve_right fun member => absent other member equal).symm
    · rw [lookup_assign_other same, info_assign, represents.lookup, List.mem_cons]
      constructor
      · exact fun known => ⟨.inr known.1, known.2⟩
      · rintro ⟨here, equal⟩
        refine ⟨here.resolve_left fun first => ?_, equal⟩
        subst first
        exact same equal.symm

theorem split (represents : Represents manager registry list)
    (known : registry.lookup name = some device) :
    ∃ front back, list = front ++ device :: back ∧
      (∀ other ∈ front ++ back, (registry.info other).name ≠ name) ∧
      list.filter (fun other => (registry.info other).name ≠ name) = front ++ back := by
  obtain ⟨member, here⟩ := (represents.lookup name device).mp known
  obtain ⟨front, back, shape⟩ := List.append_of_mem member
  subst shape
  have others : ∀ other ∈ front ++ back, (registry.info other).name ≠ name := by
    intro other inside same
    have names := represents.distinct
    have equal : (manager.device other).name = (manager.device device).name := by
      rw [represents.name_eq, represents.name_eq, same, here]
    rw [List.map_append, List.map_cons, List.nodup_middle] at names
    refine (List.nodup_cons.mp names).1 ?_
    rw [← equal, ← List.map_append]
    exact List.mem_map_of_mem inside
  refine ⟨front, back, rfl, others, ?_⟩
  rw [List.filter_append, List.filter_cons_of_neg (by simp [here]), ← List.filter_append]
  exact List.filter_eq_self.mpr fun other inside => by simpa using others other inside

/-- Forgetting the name of the device that was taken out of the list. -/
theorem forget (represents : Represents manager registry (front ++ device :: back))
    (here : (registry.info device).name = name)
    (others : ∀ other ∈ front ++ back, (registry.info other).name ≠ name)
    {after : DeviceManager ι β} (chain : Chain after.link after.deviceList (front ++ back))
    (info : ∀ other, (after.device other).toDeviceInfo = (manager.device other).toDeviceInfo) :
    Represents after (registry.assign name none) (front ++ back) := by
  refine ⟨chain, ?_, fun other => (info other).trans (represents.info other), ?_⟩
  · have names := represents.distinct
    simp only [fun other => congrArg DeviceInfo.name (info other)]
    refine names.sublist (List.Sublist.map _ ?_)
    exact List.Sublist.append_left (List.sublist_cons_self ..) _
  · intro asked other
    by_cases same : asked = name
    · subst same
      rw [lookup_assign_same, info_assign]
      constructor
      · intro never
        cases never
      · exact fun known => absurd known.2 (others other known.1)
    · rw [lookup_assign_other same, info_assign, represents.lookup]
      constructor
      · rintro ⟨member, equal⟩
        refine ⟨?_, equal⟩
        have different : other ≠ device := by
          intro first
          subst first
          exact same (equal.symm.trans here)
        simpa [different] using member
      · rintro ⟨member, equal⟩
        refine ⟨?_, equal⟩
        rcases List.mem_append.mp member with before | behind
        · simp [before]
        · simp [behind]

theorem unregister [DecidableEq ι] [Fintype ι] (represents : Represents manager registry list)
    (known : registry.lookup name = some device) :
    ∃ after, unregisterDevice manager name = some (after, 0, some device) ∧
      Represents after (registry.assign name none)
        (list.filter fun other => (registry.info other).name ≠ name) := by
  have here := ((represents.lookup name device).mp known).2
  have enough := represents.length_lt
  obtain ⟨front, back, shape, others, filtered⟩ := represents.split known
  rw [filtered]
  subst shape
  have found := @searchPrev_found _ manager.link (named manager name) manager.deviceList none device
    front back (Fintype.card ι + 1) represents.chain (by simp at enough; omega)
    (named_iff.mpr ((represents.name_eq device).trans here))
    (fun other member => by
      rw [Bool.eq_false_iff, ne_eq, named_iff, represents.name_eq]
      exact others other (by simp [member]))
  rcases List.eq_nil_or_concat front with empty | ⟨before, last, ending⟩
  · subst empty
    refine ⟨{ manager with deviceList := manager.link device }, ?_,
      represents.forget here others represents.chain.2 fun _ => rfl⟩
    rw [unregisterDevice, found]
    rfl
  · rw [List.concat_eq_append] at ending
    subst ending
    have joined : Chain manager.link manager.deviceList (before ++ last :: device :: back) := by
      simpa using represents.chain
    refine ⟨manager.setNext last (manager.link device), ?_, represents.forget here others ?_ ?_⟩
    · rw [unregisterDevice, found]
      simp
    · have chain := joined.unlink (fun other different => link_setNext_other different)
        (@link_setNext_same _ _ manager last (manager.link device) _)
      rw [← List.append_cons]
      exact chain
    · exact fun other => setNext_toDeviceInfo

/-- Every call does to the list what it means for the map. -/
theorem handle [DecidableEq ι] [Fintype ι] (represents : Represents manager registry list)
    (event : Event ι β) (admissible : Admissible manager event) :
    ∃ next, Device.handle manager event = some (next, (registry.handle event).2) ∧
      Represents next (registry.handle event).1 (registry.arrange list event) := by
  cases event with
  | modify device contents => exact ⟨_, rfl, represents.modify admissible⟩
  | registerDevice device =>
      cases device with
      | none => exact ⟨manager, rfl, represents⟩
      | some device =>
          have found := represents.search_eq (registry.info device).name
          simp only [Device.handle, registerDevice, found, Registry.handle,
            Registry.arrange, represents.info]
          cases known : registry.lookup (registry.info device).name with
          | some other => exact ⟨manager, rfl, by simpa using represents⟩
          | none => exact ⟨_, rfl, by simpa using represents.register known⟩
  | unregisterDevice name =>
      simp only [Device.handle, Registry.handle, Registry.arrange]
      cases known : registry.lookup name with
      | some device =>
          obtain ⟨after, result, kept⟩ := represents.unregister known
          exact ⟨after, by simp [result], kept⟩
      | none =>
          have missing : ∀ device ∈ list, (registry.info device).name ≠ name := by
            intro device member same
            have found := (represents.lookup name device).mpr ⟨member, same⟩
            rw [known] at found
            cases found
          refine ⟨manager, ?_, ?_⟩
          · rw [unregisterDevice, searchPrev_missing represents.chain represents.length_lt]
            · rfl
            · intro device member
              rw [Bool.eq_false_iff, ne_eq, named_iff, represents.name_eq]
              exact missing device member
          · rw [List.filter_eq_self.mpr fun device member => by simpa using missing device member]
            exact represents
  | getDevice name =>
      refine ⟨manager, ?_, represents⟩
      rw [Device.handle, getDevice, represents.search_eq]
      rfl
  | deviceRead name buf count =>
      refine ⟨manager, ?_, represents⟩
      rw [Device.handle, deviceRead, represents.deviceCall_eq]
      rfl
  | deviceWrite name buf count =>
      refine ⟨manager, ?_, represents⟩
      rw [Device.handle, deviceWrite, represents.deviceCall_eq]
      rfl
  | deviceSeek name offset whence =>
      refine ⟨manager, ?_, represents⟩
      rw [Device.handle, deviceSeek, represents.deviceCall_eq]
      rfl
  | deviceIoctl name cmd arg =>
      refine ⟨manager, ?_, represents⟩
      rw [Device.handle, deviceIoctl, represents.deviceCall_eq]
      rfl

theorem run [DecidableEq ι] [Fintype ι] (represents : Represents manager registry list)
    {events : List (Event ι β)} (admissible : Along step Admissible manager events) :
    ∃ final rest, Data.run step manager events = some final ∧
      Represents final (registry.run events) rest := by
  induction events generalizing manager registry list with
  | nil => exact ⟨manager, list, rfl, represents⟩
  | cons event rest ih =>
      obtain ⟨here, later⟩ := admissible
      obtain ⟨next, result, kept⟩ := represents.handle event here
      have taken : step manager event = some next := by simp [step, result]
      obtain ⟨final, order, reached, holds⟩ := ih kept (later next taken)
      exact ⟨final, order, by simp [Data.run, taken, reached], holds⟩

end Represents

/-- No device is registered. -/
def Registry.start (device : ι → ListedDevice ι β) : Registry ι β where
  info := fun other => (device other).toDeviceInfo
  lookup := fun _ => none

end

/-- The device list refines a finite map from names to devices: after any run
it ends, its names are distinct and it holds the devices of the map; and every
call returns what the map says, calls the operation of that device, and keeps
the order of the other devices. -/
theorem device_list_refines_map {ι β : Type} [DecidableEq ι] [Fintype ι] (device : ι → ListedDevice ι β)
    (events : List (Event ι β)) (admissible : Along step Admissible ⟨device, none⟩ events) :
    ∃ manager list, run step ⟨device, none⟩ events = some manager ∧
      Represents manager ((Registry.start device).run events) list ∧
      ∀ event, Admissible manager event → ∃ next,
        handle manager event = some (next, (((Registry.start device).run events).handle event).2) ∧
        Represents next (((Registry.start device).run events).handle event).1
          (((Registry.start device).run events).arrange list event) := by
  have start : Represents ⟨device, none⟩ (Registry.start device) [] :=
    ⟨rfl, .nil, fun _ => rfl, fun name other => by simp [Registry.start]⟩
  obtain ⟨manager, list, reached, represents⟩ := start.run admissible
  exact ⟨manager, list, reached, represents, fun event admissible => represents.handle event admissible⟩

/-- The second of two devices with one name is rejected. -/
theorem device_list_refines_map_rejected :
    ∃ manager list, run step ⟨fun _ : Fin 2 => ⟨⟨⟨[97], by decide⟩, 7, none⟩, none⟩, none⟩
        [.registerDevice (some 0), .registerDevice (some 1)] =
        some (manager : DeviceManager (Fin 2) Nat) ∧
      Chain manager.link manager.deviceList list ∧ list = [0] := by
  obtain ⟨manager, list, reached, represents, _⟩ := device_list_refines_map
    (fun _ : Fin 2 => (⟨⟨⟨[97], by decide⟩, 7, none⟩, none⟩ : ListedDevice (Fin 2) Nat))
    [.registerDevice (some 0), .registerDevice (some 1)]
    ⟨trivial, fun _ _ => ⟨trivial, fun _ _ => trivial⟩⟩
  refine ⟨manager, list, reached, represents.chain, ?_⟩
  cases reached
  exact represents.chain.unique ⟨rfl, rfl⟩

end Helios.Device
