import Mathlib.Logic.Function.Basic
import SqueezeOS.Boot.ProcMtd

/- upgrade.sh, which writes the images of an SD card in the factory, and what it takes for
   written. -/
namespace FactoryUpgrade
open Linuxrc ProcMtd

inductive Image where
  | kernel
  | bootloader
  | rootfs
  deriving DecidableEq, Repr

def images : List Image := [.kernel, .bootloader, .rootfs]

def Image.file : Image → Text
  | .kernel => ['z', 'I', 'm', 'a', 'g', 'e']
  | .bootloader => ['u', '-', 'b', 'o', 'o', 't', '.', 'b', 'i', 'n']
  | .rootfs => ['r', 'o', 'o', 't', '.', 'c', 'r', 'a', 'm', 'f', 's']

def Image.partitionName : Image → Text
  | .kernel => ['K', 'e', 'r', 'n', 'e', 'l', ' ', 'A']
  | .bootloader => ['B', 'o', 'o', 't', 'l', 'o', 'a', 'd', 'e', 'r']
  | .rootfs => ['N', 'A', 'N', 'D', ' ', 'R', 'o', 'o', 't', '(', 'U', 'I', ')', ' ', 'A']

structure Md5Line where
  hash : Text
  name : Text
  deriving DecidableEq, Repr

def Md5Line.text (l : Md5Line) : Text := l.hash ++ [' ', ' '] ++ l.name

structure Card where
  readable : Image → Bool
  md5Readable : Bool
  content : Image → List UInt8
  lines : List Md5Line

def hexDigits : Text :=
  ['0', '1', '2', '3', '4', '5', '6', '7', '8', '9', 'a', 'b', 'c', 'd', 'e', 'f']

structure Md5 where
  sum : List UInt8 → Text
  digits : ∀ bytes, (sum bytes).length = 32 ∧ ∀ c ∈ sum bytes, c ∈ hexDigits

/-- Each of the three names stands in one line, which is that of its own partition. -/
structure Listing where
  partitions : List Partition
  own : Image → Partition
  single : ∀ k : Image, matching id k.partitionName partitions = [own k]
  numbers : (partitions.map Partition.number).Nodup
  lines : ∀ p ∈ partitions, '\n' ∉ p.name

def devMtdDir : Text := ['/', 'd', 'e', 'v', '/', 'm', 't', 'd', '/']

def path (p : Partition) : Text := devMtdDir ++ decimal p.number

abbrev Content := Nat → UInt8

abbrev Flash := Text → Content

/-- What the commands report. A dump that fails has put something out all the same. -/
structure Reports where
  erased : Bool
  written : Bool
  failingDump : Option (List UInt8)

structure Setting where
  card : Card
  listing : Listing
  readable : Text → Bool
  several : List Text → Bool
  reports : Image → Reports
  before : Flash

structure Left where
  erased : Image → Content
  written : Image → Content

/-- BOOTLDMTD, KERNELMTD and ROOTFSMTD. -/
def mtdOf (s : Setting) (k : Image) : Text :=
  devices Char.toLower k.partitionName (procMtd s.listing.partitions)

/-- The commands are given the first word as their device. -/
def deviceOf (s : Setting) (k : Image) : Text := (fields (devMtdDir ++ mtdOf s k)).headD []

/-- The test in front of "unable to find". POSIX leaves it open for several words. -/
def missing (s : Setting) (k : Image) : Bool :=
  mtdOf s k = [] || match fields (devMtdDir ++ mtdOf s k) with
    | [device] => !s.readable device
    | words => s.several words

def capacity (s : Setting) (device : Text) : Nat :=
  ((s.listing.partitions.find? fun p => path p = device).map Partition.size).getD 0

def leading (s : Setting) (k : Image) (device : Text) (content : Content) : List UInt8 :=
  (List.range (min (s.card.content k).length (capacity s device))).map content

def dumped (s : Setting) (k : Image) (device : Text) (content : Content) : List UInt8 :=
  match (s.reports k).failingDump with
  | some output => output
  | none => leading s k device content

def cksum (md5 : Md5) (bytes : List UInt8) : Text :=
  substituted ((md5.sum bytes ++ [' ', ' ', '-']).takeWhile (· ≠ '-') ++ ['\n'])

/-- grep gets the first word as its pattern. -/
def grepped (card : Card) (cksum : Text) : Bool :=
  grepWith id ((fields cksum).headD []) (card.lines.map Md5Line.text) ≠ []

/-- One image. The status of the pipe is that of cut, so that it is not tested for the dump. -/
def upgradeImage (md5 : Md5) (s : Setting) (left : Left) (flash : Flash) (k : Image) :
    Option Flash :=
  if (s.reports k).erased = false then none
  else
    let flash := Function.update flash (deviceOf s k) (left.erased k)
    if (s.reports k).written = false then none
    else
      let flash := Function.update flash (deviceOf s k) (left.written k)
      if grepped s.card (cksum md5 (dumped s k (deviceOf s k) (flash (deviceOf s k)))) then
        some flash else none

/-- The flash at exit 0, and nothing for exit 1. -/
def upgradeSh (md5 : Md5) (s : Setting) (left : Left) : Option Flash :=
  if s.card.readable .bootloader = false ∨ s.card.readable .kernel = false ∨
      s.card.readable .rootfs = false ∨ s.card.md5Readable = false then none
  else if missing s .bootloader ∨ missing s .kernel ∨ missing s .rootfs then none
  else images.foldlM (upgradeImage md5 s left) s.before

def Listed (card : Card) (k : Image) (hash : Text) : Prop :=
  ∃ l ∈ card.lines, l.name = k.file ∧ l.hash = hash

def Verified (md5 : Md5) (s : Setting) : Prop :=
  ∀ left flash, upgradeSh md5 s left = some flash → ∀ k,
    Listed s.card k (md5.sum (leading s k (path (s.listing.own k))
      (flash (path (s.listing.own k)))))

def InMd5 (card : Card) (hash : Text) : Prop := ∃ l ∈ card.lines, hash <:+: l.text

/-- The first digit of the first partition in whose line the name stands in any case, taken for
    its device. -/
def target (listing : Listing) (k : Image) : Text :=
  match matching Char.toLower k.partitionName listing.partitions with
  | [] => devMtdDir
  | q :: _ => devMtdDir ++ [q.digit]

def Passes (md5 : Md5) (s : Setting) (k : Image) (content : Content) : Prop :=
  InMd5 s.card (md5.sum (dumped s k (target s.listing k) content))

structure Starts (s : Setting) : Prop where
  card : (∀ k, s.card.readable k = true) ∧ s.card.md5Readable = true
  found : ∀ k, missing s k = false

structure CanSucceed (md5 : Md5) (s : Setting) : Prop where
  starts : Starts s
  reports : ∀ k, (s.reports k).erased = true ∧ (s.reports k).written = true
  passes : ∀ k, ∃ content, Passes md5 s k content

def lastOn (s : Setting) (device : Text) : Option Image :=
  images.findRev? fun k => target s.listing k = device

/-- The partition of the image is written, and what passes there for the image that is written
    last is what is listed for this one. -/
def Covered (md5 : Md5) (s : Setting) (k : Image) : Prop :=
  match lastOn s (path (s.listing.own k)) with
  | none => Listed s.card k (md5.sum (leading s k (path (s.listing.own k))
      (s.before (path (s.listing.own k)))))
  | some j => ∀ content, Passes md5 s j content →
      Listed s.card k (md5.sum (leading s k (path (s.listing.own k)) content))

section
variable {md5 : Md5} {s : Setting} {k : Image} {card : Card}

theorem mem_images (k : Image) : k ∈ images := by
  cases k <;> decide

theorem hexDigits_plain : ∀ c ∈ hexDigits, c ≠ '-' ∧ ¬ isBlank c := by
  simp [hexDigits, isBlank]

theorem fields_blanks_behind {w : Text} (full : w ≠ []) (solid : ∀ c ∈ w, ¬ isBlank c) :
    fields (w ++ [' ', ' ']) = [w] := by
  unfold fields
  rw [List.splitOnP_append_cons_of_forall_mem (by simpa using solid) ' ' (by decide),
    List.filter_cons_of_pos (by simpa using full)]
  rfl

theorem fields_cksum (md5 : Md5) (bytes : List UInt8) :
    fields (cksum md5 bytes) = [md5.sum bytes] := by
  obtain ⟨length,digits⟩ := md5.digits bytes
  have undashed : ∀ c ∈ md5.sum bytes ++ [' ', ' '], c ≠ '-' := by
    intro c member
    rcases List.mem_append.mp member with digit | blank
    · exact (hexDigits_plain c (digits c digit)).1
    · rintro rfl
      exact absurd blank (by decide)
  have cut : (md5.sum bytes ++ [' ', ' ', '-']).takeWhile (· ≠ '-') =
      md5.sum bytes ++ [' ', ' '] := by
    rw [show [' ', ' ', '-'] = [' ', ' '] ++ ['-'] from rfl, ← List.append_assoc,
      List.takeWhile_append_of_pos (by simpa using undashed)]
    simp
  have full : md5.sum bytes ≠ [] := by
    intro empty
    rw [empty] at length
    contradiction
  rw [cksum, cut, substituted, List.rdropWhile_concat_pos _ _ _ (by simp),
    show [' ', ' '] = [' '] ++ [' '] from rfl, ← List.append_assoc,
    List.rdropWhile_concat_neg _ _ _ (by decide), List.append_assoc]
  exact fields_blanks_behind full fun c member => (hexDigits_plain c (digits c member)).2

theorem grepped_iff {bytes : List UInt8} :
    grepped card (cksum md5 bytes) = true ↔ InMd5 card (md5.sum bytes) := by
  rw [grepped, fields_cksum, decide_eq_true_iff, ← List.length_pos_iff, InMd5, grepWith,
    List.length_filter_pos_iff]
  simp

theorem header_letters : 'k' ∉ header ∧ 'b' ∉ header ∧ 't' ∉ header := by
  decide

theorem header_lower : header.map Char.toLower = header := by
  decide

theorem apart_lower (k : Image) :
    ¬ k.partitionName.map Char.toLower <:+: header.map Char.toLower := by
  rw [header_lower]
  intro inside
  cases k with
  | kernel => exact header_letters.1 (inside.subset (by decide))
  | bootloader => exact header_letters.2.1 (inside.subset (by decide))
  | rootfs => exact header_letters.2.2 (inside.subset (by decide))

theorem deviceOf_eq (s : Setting) (k : Image) : deviceOf s k = target s.listing k := by
  rw [deviceOf, mtdOf, fields_path (apart_lower k) (by simp [devMtdDir])
    (by simp [devMtdDir, isBlank]), target]
  cases matching Char.toLower k.partitionName s.listing.partitions with
  | nil => rfl
  | cons q others => rfl

def Taken (md5 : Md5) (s : Setting) (left : Left) (k : Image) : Prop :=
  ((s.reports k).erased = true ∧ (s.reports k).written = true) ∧ Passes md5 s k (left.written k)

def writeImage (s : Setting) (left : Left) (flash : Flash) (k : Image) : Flash :=
  Function.update flash (target s.listing k) (left.written k)

variable {left : Left} {flash flash' : Flash}

theorem upgradeImage_iff : upgradeImage md5 s left flash k = some flash' ↔
    Taken md5 s left k ∧ writeImage s left flash k = flash' := by
  unfold upgradeImage Taken Passes
  rw [← grepped_iff, ← deviceOf_eq]
  simp only [Function.update_self, Function.update_idem]
  cases (s.reports k).erased with
  | false => simp
  | true =>
    cases (s.reports k).written with
    | false => simp
    | true =>
      cases grepped s.card (cksum md5 (dumped s k (deviceOf s k) (left.written k))) with
      | false => simp
      | true => simp [writeImage, deviceOf_eq]

theorem upgradeImages_iff {chosen : List Image} :
    chosen.foldlM (upgradeImage md5 s left) flash = some flash' ↔
      (∀ k ∈ chosen, Taken md5 s left k) ∧ chosen.foldl (writeImage s left) flash = flash' := by
  induction chosen generalizing flash with
  | nil => simp
  | cons k rest ih =>
    rw [List.foldlM_cons, List.forall_mem_cons, List.foldl_cons]
    constructor
    · intro run
      obtain ⟨next,one,others⟩ := Option.bind_eq_some_iff.mp run
      obtain ⟨taken,rfl⟩ := upgradeImage_iff.mp one
      obtain ⟨all,last⟩ := ih.mp others
      exact ⟨⟨taken,all⟩,last⟩
    · rintro ⟨⟨taken,all⟩,last⟩
      exact Option.bind_eq_some_iff.mpr
        ⟨_,upgradeImage_iff.mpr ⟨taken,rfl⟩,ih.mpr ⟨all,last⟩⟩

theorem writeImages_last (chosen : List Image) (device : Text) :
    chosen.foldl (writeImage s left) flash device =
      match chosen.findRev? fun k => target s.listing k = device with
      | none => flash device
      | some k => left.written k := by
  induction chosen generalizing flash with
  | nil => rfl
  | cons k rest ih =>
    rw [List.foldl_cons, ih, List.findRev?]
    cases rest.findRev? fun k => target s.listing k = device with
    | some j => rfl
    | none =>
      by_cases here : target s.listing k = device
      · simp [here, writeImage]
      · simp [here, writeImage, Function.update_of_ne (Ne.symm here)]

theorem forall_image {P : Image → Prop} :
    (∀ k, P k) ↔ P .bootloader ∧ P .kernel ∧ P .rootfs := by
  constructor
  · exact fun all => ⟨all _,all _,all _⟩
  · rintro ⟨bootloader,kernel,rootfs⟩ k
    cases k with
    | kernel => exact kernel
    | bootloader => exact bootloader
    | rootfs => exact rootfs

theorem starts_iff : Starts s ↔
    ¬(s.card.readable .bootloader = false ∨ s.card.readable .kernel = false ∨
      s.card.readable .rootfs = false ∨ s.card.md5Readable = false) ∧
    ¬(missing s .bootloader ∨ missing s .kernel ∨ missing s .rootfs) := by
  constructor
  · rintro ⟨⟨readable,md5⟩,found⟩
    simp [readable, md5, found]
  · simp only [not_or, Bool.not_eq_false, Bool.not_eq_true]
    rintro ⟨⟨bootloader,kernel,rootfs,md5⟩,found⟩
    exact ⟨⟨forall_image.mpr ⟨bootloader,kernel,rootfs⟩,md5⟩,forall_image.mpr found⟩

theorem upgradeSh_iff : upgradeSh md5 s left = some flash ↔
    Starts s ∧ (∀ k, Taken md5 s left k) ∧
      images.foldl (writeImage s left) s.before = flash := by
  have every : (∀ k ∈ images, Taken md5 s left k) ↔ ∀ k, Taken md5 s left k :=
    ⟨fun all k => all k (mem_images k),fun all k _ => all k⟩
  rw [starts_iff, ← every, ← upgradeImages_iff, upgradeSh]
  split_ifs with unreadable absent
  · simp [unreadable]
  · simp [absent]
  · simp [unreadable, absent]

theorem upgradeSh_flash (run : upgradeSh md5 s left = some flash) (device : Text) :
    flash device = match lastOn s device with
      | none => s.before device
      | some j => left.written j := by
  rw [← (upgradeSh_iff.mp run).2.2]
  exact writeImages_last images device

theorem canSucceed_of_run (run : upgradeSh md5 s left = some flash) : CanSucceed md5 s := by
  obtain ⟨starts,taken,_⟩ := upgradeSh_iff.mp run
  exact ⟨starts,fun k => (taken k).1,fun k => ⟨_,(taken k).2⟩⟩

theorem upgradeSh_some (can : CanSucceed md5 s) {written : Image → Content}
    (passes : ∀ k, Passes md5 s k (written k)) :
    ∃ flash, upgradeSh md5 s { erased := written, written := written } = some flash :=
  ⟨_,upgradeSh_iff.mpr ⟨can.starts,fun k => ⟨can.reports k,passes k⟩,rfl⟩⟩

theorem covered_of_verified (verified : Verified md5 s) (can : CanSucceed md5 s) (k : Image) :
    Covered md5 s k := by
  choose usual passes using can.passes
  unfold Covered
  cases last : lastOn s (path (s.listing.own k)) with
  | none =>
    obtain ⟨flash,run⟩ := upgradeSh_some can passes
    have listed := verified _ flash run k
    rwa [upgradeSh_flash run, last] at listed
  | some j =>
    intro content passing
    -- the content is left for the last image alone; the others pass as they can
    have others : ∀ i, Passes md5 s i (Function.update usual j content i) := by
      intro i
      by_cases same : i = j
      · rw [same, Function.update_self]
        exact passing
      · rw [Function.update_of_ne same]
        exact passes i
    obtain ⟨flash,run⟩ := upgradeSh_some can others
    have listed := verified _ flash run k
    rw [upgradeSh_flash run, last] at listed
    simpa only [Function.update_self] using listed

end

/-- upgrade.sh reports nothing else than listed images, exactly when it cannot succeed, or each
    partition holds what only passes when it is listed for its image. -/
theorem verified_iff (md5 : Md5) (s : Setting) :
    Verified md5 s ↔ (CanSucceed md5 s → ∀ k, Covered md5 s k) := by
  constructor
  · exact covered_of_verified
  · intro covered left flash run k
    have cover := covered (canSucceed_of_run run) k
    unfold Covered at cover
    rw [upgradeSh_flash run]
    cases last : lastOn s (path (s.listing.own k)) with
    | none =>
      rw [last] at cover
      exact cover
    | some j =>
      rw [last] at cover
      exact cover _ ((upgradeSh_iff.mp run).2.1 j).2

def md5A : Text :=
  ['0', 'c', 'c', '1', '7', '5', 'b', '9', 'c', '0', 'f', '1', 'b', '6', 'a', '8', '3', '1', 'c',
   '3', '9', '9', 'e', '2', '6', '9', '7', '7', '2', '6', '6', '1']

def md5B : Text :=
  ['9', '2', 'e', 'b', '5', 'f', 'f', 'e', 'e', '6', 'a', 'e', '2', 'f', 'e', 'c', '3', 'a', 'd',
   '7', '1', 'c', '7', '7', '7', '5', '3', '1', '5', '7', '8', 'f']

def md5C : Text :=
  ['4', 'a', '8', 'a', '0', '8', 'f', '0', '9', 'd', '3', '7', 'b', '7', '3', '7', '9', '5', '6',
   '4', '9', '0', '3', '8', '4', '0', '8', 'b', '5', 'f', '3', '3']

def md5Empty : Text :=
  ['d', '4', '1', 'd', '8', 'c', 'd', '9', '8', 'f', '0', '0', 'b', '2', '0', '4', 'e', '9', '8',
   '0', '0', '9', '9', '8', 'e', 'c', 'f', '8', '4', '2', '7', 'e']

def letterMd5 : Md5 where
  sum bytes :=
    if bytes = [97] then md5A else if bytes = [98] then md5B
    else if bytes = [99] then md5C else md5Empty
  digits bytes := by
    split_ifs with a b c
    · exact ⟨rfl,by simp [md5A, hexDigits]⟩
    · exact ⟨rfl,by simp [md5B, hexDigits]⟩
    · exact ⟨rfl,by simp [md5C, hexDigits]⟩
    · exact ⟨rfl,by simp [md5Empty, hexDigits]⟩

def letter : Image → UInt8
  | .kernel => 97
  | .bootloader => 98
  | .rootfs => 99

def letterCard : Card :=
  { readable := fun _ => true, md5Readable := true, content := fun k => [letter k]
    lines := [{ hash := md5A, name := Image.kernel.file },
      { hash := md5B, name := Image.bootloader.file },
      { hash := md5C, name := Image.rootfs.file }] }

def partition (number : Nat) (name : Text) : Partition :=
  { number := number, size := 0x500000, eraseSize := 0x20000, name := name }

def bootPartition : Partition := partition 0 Image.bootloader.partitionName

def otherKernel : Partition := partition 1 ['K', 'e', 'r', 'n', 'e', 'l', ' ', 'B']

def rootPartition : Partition := partition 2 Image.rootfs.partitionName

def lateKernel : Partition := partition 10 Image.kernel.partitionName

def lateListing : Listing where
  partitions := [bootPartition, otherKernel, rootPartition, lateKernel]
  own
    | .kernel => lateKernel
    | .bootloader => bootPartition
    | .rootfs => rootPartition
  single k := by
    cases k with
    | kernel => decide
    | bootloader => decide
    | rootfs => decide
  numbers := by decide
  lines := by decide

def lateSetting : Setting :=
  { card := letterCard, listing := lateListing, readable := fun _ => true
    several := fun _ => true
    reports := fun _ => { erased := true, written := true, failingDump := none }
    before := fun _ _ => 98 }

theorem lateSetting_succeeds : CanSucceed letterMd5 lateSetting := by
  refine ⟨⟨⟨fun _ => rfl,rfl⟩,?_⟩,fun _ => ⟨rfl,rfl⟩,?_⟩
  · intro k
    cases k with
    | kernel => decide
    | bootloader => decide
    | rootfs => decide
  · intro k
    refine ⟨fun _ => letter k,?_⟩
    unfold Passes InMd5
    cases k with
    | kernel => decide
    | bootloader => decide
    | rootfs => decide

/-- With the kernel in /dev/mtd10 the other kernel in /dev/mtd1 is written instead. -/
theorem mtd10_not_verified : ¬Verified letterMd5 lateSetting := by
  intro verified
  have covered := covered_of_verified verified lateSetting_succeeds .kernel
  have unwritten : lastOn lateSetting (path lateKernel) = none := by decide
  unfold Covered at covered
  rw [show lateSetting.listing.own .kernel = lateKernel from rfl, unwritten] at covered
  obtain ⟨l,member,name,hash⟩ := covered
  revert l
  decide

end FactoryUpgrade
