import Helios.Exec.Model

namespace Helios.Exec

open Helios.Data Helios.Paging Helios.Strings

/-! The ramdisk as a map of at most eight names.

Registration stops at the first entry with the name or without one, the search
of `ramdisk_load` at the first without one.  They agree because the entries
with a name come first, and no name comes twice. -/

/-- The arguments of a registration. -/
structure Image where
  name : CString
  data : Nat
  size : Nat

def Image.entry (image : Image) : RamdiskEntry := ⟨some image.name.val, image.data, image.size⟩

/-- Replace the image of the same name, or append. -/
def put (image : Image) : List Image → List Image
  | [] => [image]
  | other :: rest => if other.name = image.name then image :: rest else other :: put image rest

def registered (path : CString) (images : List Image) : Option Image :=
  images.find? fun image => image.name = path

/-- A ramdisk with the registrations that succeeded, the last one first. -/
structure Registry where
  ramdisk : Ramdisk
  successes : List Image

def register (registry : Registry) (image : Image) : Registry :=
  match ramdiskRegister registry.ramdisk image.name.val image.data image.size with
  | (ramdisk, code) =>
      ⟨ramdisk, if code = 0 then image :: registry.successes else registry.successes⟩

/-- The ramdisk before the first registration. -/
def emptyRegistry : Registry := ⟨fun _ => ⟨none, 0, 0⟩, []⟩

/-- The names other than that of `image` that have been registered. -/
def otherNames (registry : Registry) (image : Image) : Finset CString :=
  (registry.successes.map Image.name).toFinset.erase image.name

section

variable {registry : Registry} {ramdisk after : Ramdisk} {images : List Image} {image : Image}
variable {blanks entries : List RamdiskEntry} {path : CString}

theorem names_put : (put image images).map Image.name =
    if image.name ∈ images.map Image.name then images.map Image.name
    else images.map Image.name ++ [image.name] := by
  induction images with
  | nil => simp [put]
  | cons other rest ih =>
      by_cases same : other.name = image.name
      · simp [put, same]
      · simp only [put, same, if_false, List.map_cons, ih, List.mem_cons, Ne.symm same, false_or]
        split
        · rfl
        · rfl

theorem registered_put : registered path (put image images) =
    if image.name = path then some image else registered path images := by
  induction images with
  | nil => simp [put, registered]
  | cons other rest ih =>
      by_cases same : other.name = image.name
      · by_cases here : image.name = path
        · simp [put, registered, same, here]
        · simp [put, registered, same, here]
      · simp only [registered] at ih ⊢
        rw [put, if_neg same, List.find?_cons, List.find?_cons, ih]
        by_cases first : other.name = path
        · have different : image.name ≠ path := fun here => same (first.trans here.symm)
          simp [first, different]
        · simp [first]

theorem strcmp_name {first second : CString} : strcmp first.val second.val = 0 ↔ first = second :=
  (strcmp_eq_zero first.property second.property).trans Subtype.ext_iff.symm

/-- The entries with a name are the images, in order, and the others follow. -/
structure Holding (ramdisk : Ramdisk) (images : List Image) (blanks : List RamdiskEntry) : Prop where
  entries : List.ofFn ramdisk = images.map Image.entry ++ blanks
  blank : ∀ entry ∈ blanks, entry.name = none
  distinct : (images.map Image.name).Nodup

theorem Holding.length (holding : Holding ramdisk images blanks) :
    images.length + blanks.length = 8 := by
  have whole := congrArg List.length holding.entries
  simpa using whole.symm

theorem searchFrom_eq (blank : ∀ entry ∈ blanks, entry.name = none) :
    searchFrom path.val (images.map Image.entry ++ blanks) =
      (registered path images).map Image.entry := by
  induction images with
  | nil =>
      cases blanks with
      | nil => rfl
      | cons entry rest => simp [searchFrom, registered, blank entry (by simp)]
  | cons image rest ih =>
      rw [List.map_cons, List.cons_append, searchFrom]
      by_cases here : image.name = path
      · simp [Image.entry, strcmp_name, registered, here]
      · simp only [Image.entry, strcmp_name, here, if_false]
        rw [registered, List.find?_cons_of_neg (by simpa using here)]
        exact ih

theorem registerFrom_entry {other : Image} :
    registerFrom image.name.val image.data image.size (other.entry :: entries) =
      if other.name = image.name then some (image.entry :: entries)
      else (registerFrom image.name.val image.data image.size entries).map (other.entry :: ·) := by
  by_cases same : other.name = image.name
  · simp [registerFrom, Image.entry, strcmp_name, same]
  · simp [registerFrom, Image.entry, strcmp_name, same]

/-- The loop of `ramdisk_register` replaces the image of the same name, or uses
up the first entry without one. -/
theorem registerFrom_eq (blank : ∀ entry ∈ blanks, entry.name = none) :
    registerFrom image.name.val image.data image.size (images.map Image.entry ++ blanks) =
      if image.name ∈ images.map Image.name then
        some ((put image images).map Image.entry ++ blanks)
      else if blanks = [] then none
      else some ((put image images).map Image.entry ++ blanks.tail) := by
  induction images with
  | nil =>
      cases blanks with
      | nil => rfl
      | cons entry rest => simp [registerFrom, put, Image.entry, blank entry (by simp)]
  | cons other rest ih =>
      rw [List.map_cons, List.cons_append, registerFrom_entry, ih]
      by_cases same : other.name = image.name
      · simp [put, same]
      · simp only [put, same, if_false, List.map_cons, List.mem_cons, Ne.symm same, false_or]
        split
        · rfl
        · split
          · rfl
          · rfl

theorem Holding.of_entries (whole : entries.length = 8)
    (same : entries = images.map Image.entry ++ blanks)
    (blank : ∀ entry ∈ blanks, entry.name = none) (distinct : (images.map Image.name).Nodup) :
    Holding (fun slot => entries.getD slot.val ⟨none, 0, 0⟩) images blanks := by
  refine ⟨?_, blank, distinct⟩
  rw [← same]
  refine List.ext_getElem (by simpa using whole.symm) fun index _ inside => ?_
  rw [List.getElem_ofFn, List.getD_eq_getElem?_getD, List.getElem?_eq_getElem inside,
    Option.getD_some]

/-- A registration fails for a ninth name alone. -/
theorem Holding.register (holding : Holding ramdisk images blanks) (image : Image) :
    (image.name ∉ images.map Image.name ∧ blanks = [] ∧
      ramdiskRegister ramdisk image.name.val image.data image.size = (ramdisk, -1)) ∨
    ((image.name ∈ images.map Image.name ∨ blanks ≠ []) ∧ ∃ after later,
      ramdiskRegister ramdisk image.name.val image.data image.size = (after, 0) ∧
      Holding after (put image images) later) := by
  have looped := @registerFrom_eq images image blanks holding.blank
  rw [← holding.entries] at looped
  have names := @names_put images image
  have whole := holding.length
  by_cases known : image.name ∈ images.map Image.name
  · rw [if_pos known] at looped names
    refine .inr ⟨.inl known, _, blanks, by rw [ramdiskRegister, looped], ?_⟩
    have same := congrArg List.length names
    refine .of_entries ?_ rfl holding.blank (by rw [names]; exact holding.distinct)
    simp only [List.length_map] at same
    simp only [List.length_append, List.length_map]
    omega
  · rw [if_neg known] at looped names
    cases blanks with
    | nil =>
        refine .inl ⟨known, rfl, ?_⟩
        rw [if_pos rfl] at looped
        rw [ramdiskRegister, looped]
    | cons entry rest =>
        rw [if_neg (List.cons_ne_nil _ _), List.tail_cons] at looped
        refine .inr ⟨.inr (List.cons_ne_nil _ _), _, rest, by rw [ramdiskRegister, looped], ?_⟩
        have longer := congrArg List.length names
        refine .of_entries ?_ rfl (fun item member => holding.blank item (by simp [member])) ?_
        · simp only [List.length_map, List.length_append, List.length_cons, List.length_nil] at longer whole
          simp only [List.length_append, List.length_map]
          omega
        · rw [names, List.nodup_append]
          refine ⟨holding.distinct, List.nodup_singleton _, fun name member other last => ?_⟩
          rw [List.mem_singleton.mp last]
          exact fun same => known (same ▸ member)

/-- The images are those of the last successes, under the names of all of them. -/
structure Kept (registry : Registry) (images : List Image) (blanks : List RamdiskEntry) : Prop
    extends Holding registry.ramdisk images blanks where
  last : ∀ path, registered path images = registered path registry.successes
  names : ∀ name, name ∈ images.map Image.name ↔ name ∈ registry.successes.map Image.name

theorem kept_empty : Kept emptyRegistry [] (List.ofFn emptyRegistry.ramdisk) := by
  refine ⟨⟨rfl, fun entry member => ?_, List.nodup_nil⟩, fun _ => rfl, fun _ => Iff.rfl⟩
  obtain ⟨slot, same⟩ := List.mem_ofFn.mp member
  rw [← same]
  rfl

theorem registered_cons : registered path (image :: images) =
    if image.name = path then some image else registered path images := by
  by_cases here : image.name = path
  · simp [registered, here]
  · simp [registered, here]

theorem Kept.register (kept : Kept registry images blanks) (image : Image) :
    ∃ images blanks, Kept (register registry image) images blanks := by
  cases kept.toHolding.register image with
  | inl full =>
      refine ⟨images, blanks, ?_⟩
      rw [Exec.register, full.2.2]
      exact kept
  | inr stored =>
      obtain ⟨_, after, later, result, holding⟩ := stored
      have next : Exec.register registry image = ⟨after, image :: registry.successes⟩ := by
        rw [Exec.register, result]
        rfl
      rw [next]
      refine ⟨_, later, holding, fun path => ?_, fun name => ?_⟩
      · rw [registered_put, registered_cons, kept.last]
      · rw [names_put, List.map_cons, List.mem_cons, ← kept.names]
        split
        · rename_i known
          exact ⟨.inr, fun member => member.elim (fun same => same ▸ known) id⟩
        · rw [List.mem_append, List.mem_singleton, or_comm]

theorem run_kept (calls : List Image) :
    ∃ images blanks, Kept (calls.foldl register emptyRegistry) images blanks := by
  have all : ∀ registry images blanks, Kept registry images blanks →
      ∃ images blanks, Kept (calls.foldl register registry) images blanks := by
    induction calls with
    | nil => exact fun registry images blanks kept => ⟨images, blanks, kept⟩
    | cons call rest ih =>
        intro registry images blanks kept
        obtain ⟨next, later, after⟩ := kept.register call
        exact ih _ next later after
  exact all _ _ _ kept_empty

theorem Holding.entry_eq (holding : Holding ramdisk images blanks) (slot : Fin 8) :
    (∃ image, images[slot.val]? = some image ∧ ramdisk slot = image.entry) ∨
      (images.length ≤ slot.val ∧ (ramdisk slot).name = none) := by
  have here : (List.ofFn ramdisk)[slot.val]? = some (ramdisk slot) := by
    rw [List.getElem?_ofFn, dif_pos slot.isLt]
  rw [holding.entries] at here
  by_cases inside : slot.val < images.length
  · rw [List.getElem?_append_left (by simpa using inside), List.getElem?_map] at here
    obtain ⟨image, found, same⟩ := Option.map_eq_some_iff.mp here
    exact .inl ⟨image, found, same.symm⟩
  · rw [List.getElem?_append_right (by simpa using inside)] at here
    exact .inr ⟨by omega, holding.blank _ (List.mem_of_getElem? here)⟩

/-- Entries with a name come first, and no name comes twice. -/
structure Packed (ramdisk : Ramdisk) : Prop where
  front : ∃ count ≤ 8, ∀ slot, (ramdisk slot).name.isSome ↔ slot.val < count
  distinct : ∀ slot other, (ramdisk slot).name.isSome → (ramdisk slot).name = (ramdisk other).name →
    slot = other

theorem Holding.packed (holding : Holding ramdisk images blanks) : Packed ramdisk := by
  have whole := holding.length
  refine ⟨⟨images.length, by omega, fun slot => ?_⟩, fun slot other named same => ?_⟩
  · cases holding.entry_eq slot with
    | inl image =>
        obtain ⟨image, found, stored⟩ := image
        simp [stored, Image.entry, (List.getElem?_eq_some_iff.mp found).1]
    | inr blank => simp [blank.2, blank.1]
  · cases holding.entry_eq slot with
    | inr blank => simp [blank.2] at named
    | inl first =>
        obtain ⟨image, found, stored⟩ := first
        cases holding.entry_eq other with
        | inr blank => simp [same, blank.2] at named
        | inl second =>
            obtain ⟨also, there, kept⟩ := second
            simp only [stored, kept, Image.entry, Option.some.injEq] at same
            have inside := (List.getElem?_eq_some_iff.mp found).1
            refine Fin.ext ((List.getElem?_inj (by simpa using inside) holding.distinct).mp ?_)
            rw [List.getElem?_map, List.getElem?_map, found, there, Option.map_some, Option.map_some,
              Subtype.ext same]

theorem Kept.otherNames_card (kept : Kept registry images blanks) (image : Image) :
    (otherNames registry image).card =
      if image.name ∈ images.map Image.name then images.length - 1 else images.length := by
  have same : (registry.successes.map Image.name).toFinset = (images.map Image.name).toFinset := by
    ext name
    rw [List.mem_toFinset, List.mem_toFinset, kept.names]
  have card : (images.map Image.name).toFinset.card = images.length := by
    rw [List.toFinset_card_of_nodup kept.distinct, List.length_map]
  rw [otherNames, same]
  split
  · rename_i known
    rw [Finset.card_erase_of_mem (List.mem_toFinset.mpr known), card]
  · rename_i unknown
    rw [Finset.erase_eq_of_notMem (mt List.mem_toFinset.mp unknown), card]

/-- A registration returns `-1` for a ninth name, and `0` otherwise. -/
theorem Kept.refused_iff (kept : Kept registry images blanks) (image : Image) :
    (ramdiskRegister registry.ramdisk image.name.val image.data image.size =
        (registry.ramdisk, -1) ∧ (otherNames registry image).card = 8) ∨
      ((ramdiskRegister registry.ramdisk image.name.val image.data image.size).2 = 0 ∧
        (otherNames registry image).card < 8) := by
  have whole := kept.length
  rw [kept.otherNames_card]
  cases kept.toHolding.register image with
  | inl full =>
      obtain ⟨unknown, none_left, result⟩ := full
      refine .inl ⟨result, ?_⟩
      rw [if_neg unknown]
      simpa [none_left] using whole
  | inr stored =>
      obtain ⟨room, after, later, result, _⟩ := stored
      refine .inr ⟨by rw [result], ?_⟩
      split
      · rename_i known
        have some_image : images ≠ [] := by
          rintro rfl
          simp at known
        have positive := List.length_pos_iff.mpr some_image
        omega
      · rename_i unknown
        have positive := List.length_pos_iff.mpr (room.resolve_left unknown)
        omega

end

/-- After any registrations the entries with a name are a prefix with distinct
names; the next call fails exactly when eight other names are registered, and
changes nothing then; and a load uses the last successful registration of its
path, and fails without one or without its data. -/
theorem ramdisk_registry (calls : List Image) (registry : Registry)
    (reached : calls.foldl register emptyRegistry = registry) :
    Packed registry.ramdisk ∧
    (∀ image, ((ramdiskRegister registry.ramdisk image.name.val image.data image.size).2 = -1 ↔
        (otherNames registry image).card = 8) ∧
      ((ramdiskRegister registry.ramdisk image.name.val image.data image.size).2 = -1 →
        (ramdiskRegister registry.ramdisk image.name.val image.data image.size).1 =
          registry.ramdisk)) ∧
    ∀ path, search registry.ramdisk path.val =
        (registered path registry.successes).map Image.entry ∧
      ∀ paging, ((registered path registry.successes).all fun image => image.data = 0) →
        ramdiskLoad registry.ramdisk path.val paging = some (.failed paging) := by
  obtain ⟨images, blanks, kept⟩ := run_kept calls
  rw [reached] at kept
  refine ⟨kept.packed, fun image => ?_, fun path => ?_⟩
  · cases kept.refused_iff image with
    | inl refused =>
        obtain ⟨result, full⟩ := refused
        simp [result, full]
    | inr stored =>
        obtain ⟨result, room⟩ := stored
        have different : (otherNames registry image).card ≠ 8 := by omega
        simp [result, different]
  · have found : search registry.ramdisk path.val =
        (registered path registry.successes).map Image.entry := by
      rw [search, kept.entries, searchFrom_eq kept.blank, kept.last]
    refine ⟨found, fun paging useless => ?_⟩
    cases last : registered path registry.successes with
    | none =>
        rw [last, Option.map_none] at found
        rw [ramdiskLoad, loadImage, found]
    | some image =>
        rw [last, Option.map_some] at found
        simp only [last, Option.all_some, decide_eq_true_eq] at useless
        simp only [ramdiskLoad, loadImage, found, Image.entry, useless, if_true]

/-- The bytes of `"sh"` and `"ls"`. -/
def shellName : CString := ⟨[115, 104], by decide⟩
def listName : CString := ⟨[108, 115], by decide⟩

/-- The second image of the shell replaces the first. -/
theorem ramdisk_registry_twice :
    ∃ registry, [⟨shellName, 4096, 10⟩, ⟨listName, 8192, 20⟩, ⟨shellName, 12288, 30⟩].foldl register
        emptyRegistry = registry ∧
      search registry.ramdisk shellName.val = some ⟨some shellName.val, 12288, 30⟩ := by
  refine ⟨_, rfl, ?_⟩
  exact ((ramdisk_registry [⟨shellName, 4096, 10⟩, ⟨listName, 8192, 20⟩, ⟨shellName, 12288, 30⟩] _
    rfl).2.2 shellName).1.trans rfl

end Helios.Exec
