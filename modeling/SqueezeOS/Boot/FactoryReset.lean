import SqueezeOS.Boot.ProcMtd

/- The partition that linuxrc mounts as /mnt/storage, and erases for a factory reset. -/
namespace FactoryReset
open Linuxrc ProcMtd

def ubifs : Text := ['u', 'b', 'i', 'f', 's']

def jffs2 : Text := ['j', 'f', 'f', 's', '2']

def devMtd : Text := ['/', 'd', 'e', 'v', '/', 'm', 't', 'd']

def devMtdblock : Text := devMtd ++ ['b', 'l', 'o', 'c', 'k']

def ubiDevice : Text := ['u', 'b', 'i', '0', ':'] ++ ubifs

/-- The test of a variable without quotes. POSIX leaves it open for more words than one. -/
def notEmpty (several : List Text → Bool) (value : Text) : Bool :=
  match fields value with
  | [] => false
  | [_] => true
  | words => several words

/-- MOUNT_TYPE, MOUNT_MTD and MOUNT_DEVICE. -/
structure Mount where
  type : Text
  mtd : Text
  device : Text
  deriving DecidableEq, Repr

def mountOf (several : List Text → Bool) (lines : List Text) : Mount :=
  let ubifsDev := devices id ubifs lines
  let jffs2Dev := devices id jffs2 lines
  if notEmpty several ubifsDev then
    { type := ubifs, mtd := devMtd ++ ubifsDev, device := ubiDevice }
  else if notEmpty several jffs2Dev then
    { type := jffs2, mtd := devMtd ++ jffs2Dev, device := devMtdblock ++ jffs2Dev }
  else { type := [], mtd := [], device := [] }

inductive Command where
  | mount (type device : List Text)
  | umount
  | flashEraseall (devices : List Text)
  deriving DecidableEq, Repr

/-- What linuxrc runs, with or without a factory reset. -/
def commands (m : Mount) (reset : Bool) : List Command :=
  let mount := Command.mount (fields m.type) (fields m.device)
  if reset then [mount, .umount, .flashEraseall (fields m.mtd), mount] else [mount]

structure Listing where
  partitions : List Partition
  names : (partitions.map Partition.name).Nodup
  numbers : (partitions.map Partition.number).Nodup
  lines : ∀ p ∈ partitions, '\n' ∉ p.name

def Listing.Storage (listing : Listing) (p : Partition) : Prop :=
  p ∈ listing.partitions ∧
    (p.name = ubifs ∨ (p.name = jffs2 ∧ ∀ q ∈ listing.partitions, q.name ≠ ubifs))

def storageMount (p : Partition) : Mount :=
  if p.name = ubifs then
    { type := ubifs, mtd := devMtd ++ decimal p.number, device := ubiDevice }
  else
    { type := jffs2, mtd := devMtd ++ decimal p.number, device := devMtdblock ++ decimal p.number }

def ResetsOnly (several : List Text → Bool) (listing : Listing) (p : Partition) : Prop :=
  ∀ reset, commands (mountOf several (procMtd listing.partitions)) reset =
    commands (storageMount p) reset

def Listing.named (listing : Listing) (name : Text) : List Partition :=
  listing.partitions.filter fun q => name <:+: q.name

def NoUbifs (several : List Text → Bool) (listing : Listing) : Prop :=
  listing.named ubifs = [] ∨
    (2 ≤ (listing.named ubifs).length ∧
      several ((listing.named ubifs).map fun q => [q.digit]) = false)

/-- The number has one digit, and no other name has the name in it. -/
def Identified (several : List Text → Bool) (listing : Listing) (p : Partition) : Prop :=
  p.number < 10 ∧
    ((p.name = ubifs ∧ listing.named ubifs = [p]) ∨
     (p.name = jffs2 ∧ NoUbifs several listing ∧ listing.named jffs2 = [p]))

theorem hex8_s {n : Nat} : 's' ∉ hex8 n := by
  intro member
  obtain ⟨i,_,same⟩ := List.mem_map.mp member
  have none : ∀ k < 16, Nat.digitChar k ≠ 's' := by decide
  exact none _ (Nat.mod_lt _ (by decide)) same

theorem front_s (p : Partition) : 's' ∉ p.front := by
  have digits : 's' ∉ decimal p.number := fun member => absurd (decimal_isDigit member) (by decide)
  simp [Partition.front, digits, hex8_s]

theorem line_iff {name : Text} (s : 's' ∈ name) (quote : '"' ∉ name) (p : Partition) :
    name.map id <:+: p.line.map id ↔ name <:+: p.name := by
  rw [List.map_id, List.map_id, Partition.line, Pieces.infix_append_cons quote,
    Pieces.infix_append_cons quote]
  constructor
  · rintro (front | inside | nothing)
    · exact absurd (front.subset s) (front_s p)
    · exact inside
    · exact absurd (nothing.subset s) (by simp)
  · exact fun inside => .inr (.inl inside)

theorem header_f : 'f' ∉ header := by
  simp [header]

theorem apart_header {name : Text} (f : 'f' ∈ name) : ¬ name.map id <:+: header.map id := by
  rw [List.map_id, List.map_id]
  exact fun inside => header_f (inside.subset f)

theorem matching_named {name : Text} (s : 's' ∈ name) (quote : '"' ∉ name) (listing : Listing) :
    matching id name listing.partitions = listing.named name := by
  unfold matching Listing.named
  simp only [line_iff s quote]

theorem ubifs_found (listing : Listing) :
    matching id ubifs listing.partitions = listing.named ubifs :=
  matching_named (by simp [ubifs]) (by simp [ubifs]) listing

theorem jffs2_found (listing : Listing) :
    matching id jffs2 listing.partitions = listing.named jffs2 :=
  matching_named (by simp [jffs2]) (by simp [jffs2]) listing

section
variable {several : List Text → Bool} {listing : Listing} {p : Partition}

theorem notEmpty_iff (several : List Text → Bool) {name : Text} (f : 'f' ∈ name)
    (found : matching id name listing.partitions = listing.named name) :
    notEmpty several (devices id name (procMtd listing.partitions)) = true ↔
      (listing.named name).length = 1 ∨
      (2 ≤ (listing.named name).length ∧
        several ((listing.named name).map fun q => [q.digit]) = true) := by
  unfold notEmpty
  rw [fields_devices (apart_header f), found]
  cases listing.named name with
  | nil => simp
  | cons q others => cases others <;> simp

theorem notEmpty_single (several : List Text → Bool) {name : Text} (f : 'f' ∈ name)
    (found : matching id name listing.partitions = listing.named name)
    (single : listing.named name = [p]) :
    notEmpty several (devices id name (procMtd listing.partitions)) = true := by
  rw [notEmpty_iff several f found, single]
  exact .inl rfl

theorem noUbifs_iff : NoUbifs several listing ↔
    notEmpty several (devices id ubifs (procMtd listing.partitions)) = false := by
  rw [← Bool.not_eq_true, notEmpty_iff several (by simp [ubifs]) (ubifs_found listing), NoUbifs]
  cases listing.named ubifs with
  | nil => simp
  | cons q others => cases others <;> simp

theorem fields_device_iff (path : Text) {name : Text} (f : 'f' ∈ name)
    (found : matching id name listing.partitions = listing.named name) (full : path ≠ [])
    (solid : ∀ c ∈ path, ¬ isBlank c) (there : p ∈ listing.named name) :
    fields (path ++ devices id name (procMtd listing.partitions)) =
        fields (path ++ decimal p.number) ↔
      listing.named name = [p] ∧ p.number < 10 := by
  have whole : fields (path ++ decimal p.number) = [path ++ decimal p.number] := by
    apply fields_word (by simp [full])
    intro c member
    rcases List.mem_append.mp member with inside | digit
    · exact solid c inside
    · exact not_blank_of_isDigit (decimal_isDigit digit)
  rw [fields_path (apart_header f) full solid, found, whole]
  cases named : listing.named name with
  | nil => simp [named] at there
  | cons q others =>
    rw [named] at there
    cases others with
    | nil =>
      have same : p = q := by simpa using there
      rw [same]
      simp [← digit_whole_iff]
    | cons r others => simp

theorem commands_iff {m m' : Mount} :
    (∀ reset, commands m reset = commands m' reset) ↔
      fields m.type = fields m'.type ∧ fields m.device = fields m'.device ∧
      fields m.mtd = fields m'.mtd := by
  constructor
  · intro same
    have all := same true
    simp only [commands, if_true, List.cons.injEq, Command.mount.injEq,
      Command.flashEraseall.injEq] at all
    exact ⟨all.1.1,all.1.2,all.2.2.1⟩
  · rintro ⟨type,device,mtd⟩ reset
    simp only [commands, type, device, mtd]

theorem mountOf_ubifs
    (taken : notEmpty several (devices id ubifs (procMtd listing.partitions)) = true) :
    mountOf several (procMtd listing.partitions) =
      { type := ubifs, mtd := devMtd ++ devices id ubifs (procMtd listing.partitions)
        device := ubiDevice } :=
  if_pos taken

theorem mountOf_jffs2 (none : NoUbifs several listing)
    (taken : notEmpty several (devices id jffs2 (procMtd listing.partitions)) = true) :
    mountOf several (procMtd listing.partitions) =
      { type := jffs2, mtd := devMtd ++ devices id jffs2 (procMtd listing.partitions)
        device := devMtdblock ++ devices id jffs2 (procMtd listing.partitions) } := by
  have passed := noUbifs_iff.mp none
  simp only [mountOf, passed, taken]
  rfl

theorem mountOf_none (none : NoUbifs several listing)
    (passed' : notEmpty several (devices id jffs2 (procMtd listing.partitions)) = false) :
    mountOf several (procMtd listing.partitions) = { type := [], mtd := [], device := [] } := by
  have passed := noUbifs_iff.mp none
  simp only [mountOf, passed, passed']
  rfl

theorem types_apart : fields jffs2 ≠ fields ubifs ∧ fields [] ≠ fields ubifs ∧
    fields [] ≠ fields jffs2 := by
  decide

theorem mem_named (inside : p ∈ listing.partitions) : p ∈ listing.named p.name := by
  simp [Listing.named, inside]

theorem resets_ubifs_iff (inside : p ∈ listing.partitions) (name : p.name = ubifs) :
    ResetsOnly several listing p ↔ listing.named ubifs = [p] ∧ p.number < 10 := by
  have there : p ∈ listing.named ubifs := name ▸ mem_named inside
  have erased := fields_device_iff devMtd (by simp [ubifs]) (ubifs_found listing)
    (by simp [devMtd]) (by simp [devMtd, isBlank]) there
  rw [ResetsOnly, commands_iff, storageMount, if_pos name]
  cases taken : notEmpty several (devices id ubifs (procMtd listing.partitions)) with
  | true =>
    rw [mountOf_ubifs taken]
    simpa using erased
  | false =>
    have none : NoUbifs several listing := noUbifs_iff.mpr taken
    constructor
    · rintro ⟨type,_⟩
      exfalso
      cases other : notEmpty several (devices id jffs2 (procMtd listing.partitions)) with
      | true =>
        rw [mountOf_jffs2 none other] at type
        exact types_apart.1 type
      | false =>
        rw [mountOf_none none other] at type
        exact types_apart.2.1 type
    · rintro ⟨single,_⟩
      have only := notEmpty_single several (by simp [ubifs]) (ubifs_found listing) single
      rw [taken] at only
      contradiction

theorem resets_jffs2_iff (inside : p ∈ listing.partitions) (name : p.name = jffs2) :
    ResetsOnly several listing p ↔
      NoUbifs several listing ∧ listing.named jffs2 = [p] ∧ p.number < 10 := by
  have there : p ∈ listing.named jffs2 := name ▸ mem_named inside
  have other : p.name ≠ ubifs := by
    rw [name]
    decide
  have erased := fields_device_iff devMtd (by simp [jffs2]) (jffs2_found listing)
    (by simp [devMtd]) (by simp [devMtd, isBlank]) there
  have mounted := fields_device_iff devMtdblock (by simp [jffs2]) (jffs2_found listing)
    (by simp [devMtdblock, devMtd]) (by simp [devMtdblock, devMtd, isBlank]) there
  rw [ResetsOnly, commands_iff, storageMount, if_neg other]
  by_cases none : NoUbifs several listing
  · cases taken : notEmpty several (devices id jffs2 (procMtd listing.partitions)) with
    | true =>
      rw [mountOf_jffs2 none taken]
      simp only [erased, mounted]
      constructor
      · rintro ⟨_,found,_⟩
        exact ⟨none,found⟩
      · rintro ⟨_,found⟩
        exact ⟨trivial,found,found⟩
    | false =>
      rw [mountOf_none none taken]
      constructor
      · rintro ⟨type,_⟩
        exact absurd type types_apart.2.2
      · rintro ⟨_,single,_⟩
        have only := notEmpty_single several (by simp [jffs2]) (jffs2_found listing) single
        rw [taken] at only
        contradiction
  · have taken : notEmpty several (devices id ubifs (procMtd listing.partitions)) = true := by
      rw [noUbifs_iff] at none
      simpa using none
    rw [mountOf_ubifs taken]
    constructor
    · rintro ⟨type,_⟩
      exact absurd type.symm types_apart.1
    · exact fun all => absurd all.1 none

end

/-- linuxrc mounts the storage, and erases nothing else, exactly when its partition can be told
    by its name and by one digit. -/
theorem resetsOnly_iff (several : List Text → Bool) (listing : Listing) (p : Partition)
    (storage : listing.Storage p) :
    ResetsOnly several listing p ↔ Identified several listing p := by
  obtain ⟨inside,name | ⟨name,_⟩⟩ := storage
  · have other : p.name ≠ jffs2 := by
      rw [name]
      decide
    rw [resets_ubifs_iff inside name, Identified]
    tauto
  · have other : p.name ≠ ubifs := by
      rw [name]
      decide
    rw [resets_jffs2_iff inside name, Identified]
    tauto

def kernelPartition : Partition :=
  { number := 1, size := 0x500000, eraseSize := 0x20000, name := ['k', 'e', 'r', 'n', 'e', 'l'] }

def ubifsPartition (number : Nat) : Partition :=
  { number := number, size := 0x4000000, eraseSize := 0x20000, name := ubifs }

def withUbifs (number : Nat) (other : number ≠ 1) : Listing :=
  { partitions := [kernelPartition, ubifsPartition number]
    names := by simp [kernelPartition, ubifsPartition, ubifs]
    numbers := by simp [kernelPartition, ubifsPartition, other.symm]
    lines := by simp [kernelPartition, ubifsPartition, ubifs] }

theorem withUbifs_storage {number : Nat} (other : number ≠ 1) :
    (withUbifs number other).Storage (ubifsPartition number) :=
  ⟨by simp [withUbifs],.inl rfl⟩

theorem mtd3_reset : (withUbifs 3 (by decide)).Storage (ubifsPartition 3) ∧
    ResetsOnly (fun _ => false) (withUbifs 3 (by decide)) (ubifsPartition 3) := by
  refine ⟨withUbifs_storage (by decide),?_⟩
  apply (resetsOnly_iff _ _ _ (withUbifs_storage (by decide))).mpr
  exact ⟨by decide,.inl ⟨rfl,by decide⟩⟩

/-- With the storage in /dev/mtd10 the kernel in /dev/mtd1 is erased instead. -/
theorem mtd10_not_reset : (withUbifs 10 (by decide)).Storage (ubifsPartition 10) ∧
    ¬ResetsOnly (fun _ => false) (withUbifs 10 (by decide)) (ubifsPartition 10) := by
  have storage := withUbifs_storage (show 10 ≠ 1 by decide)
  refine ⟨storage,?_⟩
  rw [resets_ubifs_iff storage.1 rfl]
  rintro ⟨_,small⟩
  exact absurd small (by decide)

end FactoryReset
