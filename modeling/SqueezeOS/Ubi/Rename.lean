import Mathlib.Algebra.Group.Nat.Defs
import SqueezeOS.ByteStore

/- ubirename, and the request on the stack of its main. A string is its bytes in front of the
   NUL. -/
namespace Ubirename
open ByteStore

abbrev CString := List UInt8

def UBI_MAX_RNVOL : Nat := 32

def UBI_MAX_VOLUME_NAME : Nat := 127

/- struct ubi_rnvol_req, which is packed. -/

def countAt : Nat := 0

def padding1At : Nat := 4

def entsAt (i : Nat) : Nat := 16 + (8 + (UBI_MAX_VOLUME_NAME + 1)) * i

def volIdAt (i : Nat) : Nat := entsAt i

def nameLenAt (i : Nat) : Nat := entsAt i + 4

def padding2At (i : Nat) : Nat := entsAt i + 6

def nameAt (i : Nat) : Nat := entsAt i + 8

def requestSize : Nat := entsAt UBI_MAX_RNVOL

def littleEndian (length n : Nat) : List UInt8 :=
  (List.range length).map fun k => UInt8.ofNat (n / 256 ^ k)

def int32 (n : Nat) : List UInt8 := littleEndian 4 n

def int16 (n : Nat) : List UInt8 := littleEndian 2 n

structure Device where
  lowest : Nat
  highest : Nat
  volumes : Nat → Option CString
  distinct : ∀ i j name, volumes i = some name → volumes j = some name → i = j
  ids : ∀ i name, volumes i = some name → lowest ≤ i ∧ i ≤ highest
  int : highest + 1 < 2 ^ 31

/-- What libubi and the kernel answer. The volumes are read again for each pair. -/
structure Libubi where
  opened : Bool
  nodeType : Int
  devInfo : Bool
  unreadable : Nat → Nat → Bool
  nodeOpens : Bool
  renamed : Int

/-- ubi_get_vol_info1, with ENOENT apart from other errors. -/
inductive VolInfo where
  | volume (id : Nat) (name : CString)
  | noEntry
  | failed

def getVolInfo1 (d : Device) (unreadable : Nat → Bool) (i : Nat) : VolInfo :=
  if unreadable i then .failed
  else match d.volumes i with
    | some name => .volume i name
    | none => .noEntry

def getVolIdIn (d : Device) (unreadable : Nat → Bool) (name : CString) : List Nat → Option Nat
  | [] => none
  | i :: rest => match getVolInfo1 d unreadable i with
    | .failed => none
    | .noEntry => getVolIdIn d unreadable name rest
    | .volume id found => if name = found then some id else getVolIdIn d unreadable name rest

def getVolId (d : Device) (unreadable : Nat → Bool) (name : CString) : Option Nat :=
  getVolIdIn d unreadable name (List.range' d.lowest (d.highest + 1 - d.lowest))

/-- How main ends: by a store outside of its array, without the ioctl, or with it. -/
inductive Ended where
  | overrun
  | exited (status : Int)
  | asked (request : Memory) (status : Int)

def strcpy (m : Memory) (place room : Nat) (text : CString) : Except Ended Memory :=
  if text.length < room then .ok (store m place (text ++ [0])) else .error .overrun

def putEntry (m : Memory) (count id : Nat) (new : CString) : Except Ended Memory :=
  if count < UBI_MAX_RNVOL then
    let m := store m (volIdAt count) (int32 id)
    let m := store m (nameLenAt count) (int16 new.length)
    strcpy m (nameAt count) (UBI_MAX_VOLUME_NAME + 1) new
  else .error .overrun

structure Pair where
  old : CString
  new : CString
  deriving DecidableEq, Repr

def fill (lib : Libubi) (d : Device) (m : Memory) (count : Nat) :
    List Pair → Except Ended (Memory × Nat)
  | [] => .ok (m, count)
  | p :: rest => match getVolId d (lib.unreadable count) p.old with
    | none => .error (.exited (-1))
    | some id => match putEntry m count id p.new with
      | .error ended => .error ended
      | .ok m => fill lib d m (count + 1) rest

/-- `renamed` is -1 too when udev does not settle. -/
def ubiRnvols (lib : Libubi) (request : Memory) : Ended :=
  if lib.nodeOpens then .asked request (if lib.renamed = -1 then -1 else 0) else .exited (-1)

def pairsOf : List CString → List Pair
  | old :: new :: rest => { old := old, new := new } :: pairsOf rest
  | _ => []

def main (lib : Libubi) (d : Device) (rnvol : Memory) (argv : List CString) : Ended :=
  if argv.length < 3 ∨ argv.length % 2 = 1 then .exited (-1)
  else if lib.opened = false then .exited (-1)
  else if lib.nodeType = 2 then .exited (-1)
  else if lib.nodeType < 0 then .exited (-1)
  else if lib.devInfo = false then .exited (-1)
  else match fill lib d rnvol 0 (pairsOf (argv.drop 2)) with
    | .error ended => ended
    | .ok (m, count) => ubiRnvols lib (store m countAt (int32 count))

structure Entry (request : Memory) (i id : Nat) (new : CString) : Prop where
  within : i < UBI_MAX_RNVOL
  fits : new.length ≤ UBI_MAX_VOLUME_NAME
  volId : load request (volIdAt i) 4 = int32 id
  nameLen : load request (nameLenAt i) 2 = int16 new.length
  name : load request (nameAt i) (new.length + 1) = new ++ [0]

structure Zeroed (request : Memory) : Prop where
  padding1 : load request padding1At 12 = List.replicate 12 0
  padding2 : ∀ i < UBI_MAX_RNVOL, load request (padding2At i) 2 = List.replicate 2 0

structure Asks (d : Device) (pairs : List Pair) (request : Memory) : Prop where
  count : load request countAt 4 = int32 pairs.length
  entries : ∀ i p, pairs[i]? = some p → ∃ id, d.volumes id = some p.old ∧ Entry request i id p.new
  padding : Zeroed request

def Right (d : Device) (pairs : List Pair) : Ended → Prop
  | .overrun => False
  | .exited status => status ≠ 0
  | .asked request _ => Asks d pairs request

def Found (lib : Libubi) (d : Device) (count : Nat) (old : CString) : Prop :=
  ∃ id, d.volumes id = some old ∧ ∀ k, d.lowest ≤ k → k ≤ id → lib.unreadable count k = false

def Fits (lib : Libubi) (d : Device) (count : Nat) (pairs : List Pair) : Prop :=
  ∀ i p, pairs[i]? = some p → (∀ j q, j ≤ i → pairs[j]? = some q → Found lib d (count + j) q.old) →
    count + i < UBI_MAX_RNVOL ∧ p.new.length ≤ UBI_MAX_VOLUME_NAME

def AllFound (lib : Libubi) (d : Device) (count : Nat) (pairs : List Pair) : Prop :=
  ∀ i p, pairs[i]? = some p → Found lib d (count + i) p.old

structure Starts (lib : Libubi) (argv : List CString) : Prop where
  arguments : 3 ≤ argv.length ∧ argv.length % 2 = 0
  opened : lib.opened = true
  node : lib.nodeType ≠ 2 ∧ 0 ≤ lib.nodeType
  info : lib.devInfo = true

def Meets (lib : Libubi) (d : Device) (rnvol : Memory) (argv : List CString) : Prop :=
  Starts lib argv → Fits lib d 0 (pairsOf (argv.drop 2)) ∧
    (AllFound lib d 0 (pairsOf (argv.drop 2)) → lib.nodeOpens = true → Zeroed rnvol)

section
variable {lib : Libubi} {d : Device} {m m' : Memory} {count id : Nat}
variable {new : CString} {unreadable : Nat → Bool}

theorem getVolIdIn_cons (name : CString) (i : Nat) (rest : List Nat) :
    getVolIdIn d unreadable name (i :: rest) =
      if unreadable i then none
      else if d.volumes i = some name then some i
      else getVolIdIn d unreadable name rest := by
  rw [getVolIdIn, getVolInfo1]
  cases unreadable i with
  | true => rfl
  | false =>
    cases d.volumes i with
    | none => simp
    | some found => simp [eq_comm (a := name)]

theorem readable_from_iff {low : Nat} (start : low ≤ id) :
    (∀ k, low ≤ k → k ≤ id → unreadable k = false) ↔
      unreadable low = false ∧ ∀ k, low + 1 ≤ k → k ≤ id → unreadable k = false := by
  constructor
  · exact fun all => ⟨all low le_rfl start,fun k later => all k (Nat.le_of_succ_le later)⟩
  · rintro ⟨first,others⟩ k above below
    rcases Nat.eq_or_lt_of_le above with rfl | later
    · exact first
    · exact others k later below

theorem getVolIdIn_range (name : CString) (low n : Nat) :
    getVolIdIn d unreadable name (List.range' low n) = some id ↔
      low ≤ id ∧ id < low + n ∧ d.volumes id = some name ∧
        ∀ k, low ≤ k → k ≤ id → unreadable k = false := by
  induction n generalizing low with
  | zero =>
    rw [List.range'_zero, getVolIdIn]
    constructor
    · intro none
      contradiction
    · intro all
      omega
  | succ n ih =>
    rw [List.range'_succ, getVolIdIn_cons]
    constructor
    · intro looked
      split_ifs at looked with broken here
      · have readable : unreadable low = false := by simpa using broken
        cases looked
        exact ⟨le_rfl,by omega,here,(readable_from_iff le_rfl).mpr ⟨readable,by omega⟩⟩
      · obtain ⟨later,inside,named,others⟩ := (ih (low + 1)).mp looked
        have readable : unreadable low = false := by simpa using broken
        have start : low ≤ id := Nat.le_of_succ_le later
        exact ⟨start,by omega,named,(readable_from_iff start).mpr ⟨readable,others⟩⟩
    · rintro ⟨start,inside,named,all⟩
      obtain ⟨readable,others⟩ := (readable_from_iff start).mp all
      rw [if_neg (by simp [readable])]
      split_ifs with here
      · exact congrArg some (d.distinct low id name here named)
      · have apart : low ≠ id := by
          rintro rfl
          exact here named
        exact (ih (low + 1)).mpr ⟨by omega,by omega,named,others⟩

theorem getVolId_eq_some_iff (name : CString) : getVolId d unreadable name = some id ↔
    d.volumes id = some name ∧ ∀ k, d.lowest ≤ k → k ≤ id → unreadable k = false := by
  rw [getVolId, getVolIdIn_range]
  constructor
  · exact fun all => all.2.2
  · intro all
    have range := d.ids id name all.1
    exact ⟨range.1,by omega,all⟩

theorem found_iff {old : CString} :
    Found lib d count old ↔ ∃ id, getVolId d (lib.unreadable count) old = some id := by
  simp only [getVolId_eq_some_iff, Found]

theorem entsAt_eq (i : Nat) : entsAt i = 16 + 136 * i := rfl

structure Kept (count : Nat) (m m' : Memory) : Prop where
  below : ∀ a < entsAt count, m' a = m a
  padding2 : ∀ i, load m' (padding2At i) 2 = load m (padding2At i) 2

theorem Kept.trans {m'' : Memory} (first : Kept count m m') (later : Kept (count + 1) m' m'') :
    Kept count m m'' where
  below a inside := by
    rw [later.below a (by rw [entsAt_eq] at inside ⊢; omega), first.below a inside]
  padding2 i := by rw [later.padding2, first.padding2]

theorem Entry.congr {i : Nat} (entry : Entry m i id new)
    (same : ∀ a, entsAt i ≤ a → a < entsAt (i + 1) → m' a = m a) : Entry m' i id new := by
  have fits := entry.fits
  unfold UBI_MAX_VOLUME_NAME at fits
  have part : ∀ place length, entsAt i ≤ place → place + length ≤ entsAt (i + 1) →
      load m' place length = load m place length := by
    intro place length low high
    apply load_congr
    intro j inside
    exact same (place + j) (by omega) (by omega)
  refine ⟨entry.within,entry.fits,?_,?_,?_⟩
  · rw [part _ _ (by simp only [volIdAt]; omega) (by simp only [volIdAt, entsAt_eq]; omega),
      entry.volId]
  · rw [part _ _ (by simp only [nameLenAt]; omega) (by simp only [nameLenAt, entsAt_eq]; omega),
      entry.nameLen]
  · rw [part _ _ (by simp only [nameAt]; omega) (by simp only [nameAt, entsAt_eq]; omega),
      entry.name]

theorem Kept.entry {i : Nat} (kept : Kept count m m') (before : i < count)
    (entry : Entry m i id new) : Entry m' i id new := by
  apply entry.congr
  intro a _ inside
  exact kept.below a (by rw [entsAt_eq] at inside ⊢; omega)

def stored (m : Memory) (count id : Nat) (new : CString) : Memory :=
  store (store (store m (volIdAt count) (int32 id)) (nameLenAt count) (int16 new.length))
    (nameAt count) (new ++ [0])

theorem putEntry_eq : putEntry m count id new =
    if count < UBI_MAX_RNVOL ∧ new.length ≤ UBI_MAX_VOLUME_NAME then .ok (stored m count id new)
    else .error .overrun := by
  unfold putEntry strcpy
  by_cases within : count < UBI_MAX_RNVOL
  · simp only [within, if_true, true_and, Nat.lt_succ_iff]
    rfl
  · simp [within]

theorem int32_length (n : Nat) : (int32 n).length = 4 := by
  simp [int32, littleEndian]

theorem int16_length (n : Nat) : (int16 n).length = 2 := by
  simp [int16, littleEndian]

theorem stored_entry (within : count < UBI_MAX_RNVOL) (fits : new.length ≤ UBI_MAX_VOLUME_NAME) :
    Entry (stored m count id new) count id new := by
  refine ⟨within,fits,?_,?_,?_⟩
  · rw [stored, load_store_apart (by simp only [volIdAt, nameAt]; omega),
      load_store_apart (by simp only [volIdAt, nameLenAt]; omega)]
    simpa only [int32_length] using load_store m (volIdAt count) (int32 id)
  · rw [stored, load_store_apart (by simp only [nameLenAt, nameAt]; omega)]
    simpa only [int16_length] using load_store _ (nameLenAt count) (int16 new.length)
  · have read := load_store (store (store m (volIdAt count) (int32 id)) (nameLenAt count)
      (int16 new.length)) (nameAt count) (new ++ [0])
    rwa [List.length_append, List.length_singleton] at read

theorem stored_kept (fits : new.length ≤ UBI_MAX_VOLUME_NAME) :
    Kept count m (stored m count id new) := by
  have short : (new ++ [0]).length ≤ 128 := by
    unfold UBI_MAX_VOLUME_NAME at fits
    rw [List.length_append, List.length_singleton]
    omega
  have one := int32_length id
  have two := int16_length new.length
  constructor
  · intro a below
    rw [stored, store_apart (by simp only [nameAt]; omega),
      store_apart (by simp only [nameLenAt]; omega), store_apart (by simp only [volIdAt]; omega)]
  · intro i
    rw [stored, load_store_apart (by simp only [padding2At, nameAt, entsAt_eq]; omega),
      load_store_apart (by simp only [padding2At, nameLenAt, entsAt_eq]; omega),
      load_store_apart (by simp only [padding2At, volIdAt, entsAt_eq]; omega)]

theorem stored_inside (within : count < UBI_MAX_RNVOL) (fits : new.length ≤ UBI_MAX_VOLUME_NAME)
    {a : Nat} (behind : requestSize ≤ a) : stored m count id new a = m a := by
  have one := int32_length id
  have two := int16_length new.length
  have three : (new ++ [0]).length = new.length + 1 := by simp
  unfold UBI_MAX_VOLUME_NAME at fits
  simp only [requestSize, UBI_MAX_RNVOL, entsAt_eq] at within behind
  rw [stored, store_apart (by simp only [nameAt, entsAt_eq]; omega),
    store_apart (by simp only [nameLenAt, entsAt_eq]; omega),
    store_apart (by simp only [volIdAt, entsAt_eq]; omega)]

theorem allFound_cons {p : Pair} {rest : List Pair} : AllFound lib d count (p :: rest) ↔
    Found lib d count p.old ∧ AllFound lib d (count + 1) rest := by
  constructor
  · intro all
    refine ⟨all 0 p rfl,?_⟩
    intro i q there
    rw [Nat.add_right_comm]
    exact all (i + 1) q there
  · rintro ⟨first,others⟩ i q there
    cases i with
    | zero =>
      cases Option.some.inj there
      exact first
    | succ i =>
      have later := others i q there
      rwa [Nat.add_right_comm] at later

theorem fits_cons {p : Pair} {rest : List Pair} : Fits lib d count (p :: rest) ↔
    (Found lib d count p.old →
      (count < UBI_MAX_RNVOL ∧ p.new.length ≤ UBI_MAX_VOLUME_NAME) ∧
        Fits lib d (count + 1) rest) := by
  constructor
  · intro fits first
    constructor
    · refine fits 0 p rfl ?_
      intro j q early there
      cases Nat.le_zero.mp early
      cases Option.some.inj there
      exact first
    · intro i q there found
      rw [Nat.add_right_comm]
      refine fits (i + 1) q there ?_
      intro j r early here
      cases j with
      | zero =>
        cases Option.some.inj here
        exact first
      | succ j =>
        have one := found j r (Nat.le_of_succ_le_succ early) here
        rwa [Nat.add_right_comm] at one
  · intro fits i q there found
    obtain ⟨first,others⟩ := fits (found 0 p (Nat.zero_le i) rfl)
    cases i with
    | zero =>
      cases Option.some.inj there
      exact first
    | succ i =>
      have later := others i q there
      rw [Nat.add_right_comm] at later
      apply later
      intro j r early here
      rw [Nat.add_right_comm]
      exact found (j + 1) r (Nat.succ_le_succ early) here

section
variable {p : Pair} {rest : List Pair}

theorem fill_missing (looked : getVolId d (lib.unreadable count) p.old = none) :
    fill lib d m count (p :: rest) = .error (.exited (-1)) := by
  rw [fill, looked]

theorem fill_outside (looked : getVolId d (lib.unreadable count) p.old = some id)
    (outside : ¬(count < UBI_MAX_RNVOL ∧ p.new.length ≤ UBI_MAX_VOLUME_NAME)) :
    fill lib d m count (p :: rest) = .error .overrun := by
  have put : putEntry m count id p.new = .error .overrun := by rw [putEntry_eq, if_neg outside]
  simp only [fill, looked, put]

theorem fill_stored (looked : getVolId d (lib.unreadable count) p.old = some id)
    (within : count < UBI_MAX_RNVOL ∧ p.new.length ≤ UBI_MAX_VOLUME_NAME) :
    fill lib d m count (p :: rest) = fill lib d (stored m count id p.new) (count + 1) rest := by
  have put : putEntry m count id p.new = .ok (stored m count id p.new) := by
    rw [putEntry_eq, if_pos within]
  simp only [fill, looked, put]

end

theorem fill_cases (pairs : List Pair) :
    (∃ m', fill lib d m count pairs = .ok (m', count + pairs.length) ∧
      Fits lib d count pairs ∧ AllFound lib d count pairs ∧ Kept count m m' ∧
      ∀ i p, pairs[i]? = some p →
        ∃ id, d.volumes id = some p.old ∧ Entry m' (count + i) id p.new) ∨
    (fill lib d m count pairs = .error .overrun ∧ ¬Fits lib d count pairs) ∨
    (fill lib d m count pairs = .error (.exited (-1)) ∧
      Fits lib d count pairs ∧ ¬AllFound lib d count pairs) := by
  induction pairs generalizing m count with
  | nil =>
    refine .inl ⟨m,rfl,?_,?_,⟨fun _ _ => rfl,fun _ => rfl⟩,?_⟩
    · intro i p there
      simp at there
    · intro i p there
      simp at there
    · intro i p there
      simp at there
  | cons p rest ih =>
    rw [fits_cons, allFound_cons]
    cases looked : getVolId d (lib.unreadable count) p.old with
    | none =>
      have missing : ¬Found lib d count p.old := by
        rw [found_iff, looked]
        simp
      refine .inr (.inr ⟨fill_missing looked,?_,?_⟩)
      · exact fun found => absurd found missing
      · exact fun all => missing all.1
    | some id =>
      have found : Found lib d count p.old := found_iff.mpr ⟨id,looked⟩
      have named := ((getVolId_eq_some_iff p.old).mp looked).1
      by_cases within : count < UBI_MAX_RNVOL ∧ p.new.length ≤ UBI_MAX_VOLUME_NAME
      · have kept : Kept count m (stored m count id p.new) := stored_kept within.2
        have entry : Entry (stored m count id p.new) count id p.new :=
          stored_entry within.1 within.2
        simp only [fill_stored looked within, found, within, and_self, true_and, true_implies]
        rcases @ih (stored m count id p.new) (count + 1) with
          ⟨m',filled,fits,all,kept',entries⟩ | ended | stopped
        · refine .inl ⟨m',?_,fits,all,kept.trans kept',?_⟩
          · rw [filled, List.length_cons, Nat.add_right_comm, Nat.add_assoc]
          · intro i q there
            cases i with
            | zero =>
              cases Option.some.inj there
              exact ⟨id,named,kept'.entry (Nat.lt_succ_self count) entry⟩
            | succ i =>
              have later := entries i q there
              rwa [Nat.add_right_comm] at later
        · exact .inr (.inl ended)
        · exact .inr (.inr stopped)
      · exact .inr (.inl ⟨fill_outside looked within,fun fits => within (fits found).1⟩)

theorem Zeroed.congr (zeroed : Zeroed m) (first : load m' padding1At 12 = load m padding1At 12)
    (second : ∀ i, load m' (padding2At i) 2 = load m (padding2At i) 2) : Zeroed m' where
  padding1 := first.trans zeroed.padding1
  padding2 i small := (second i).trans (zeroed.padding2 i small)

theorem asks_iff {pairs : List Pair} (kept : Kept 0 m m')
    (entries : ∀ i p, pairs[i]? = some p →
      ∃ id, d.volumes id = some p.old ∧ Entry m' i id p.new) :
    Asks d pairs (store m' countAt (int32 pairs.length)) ↔ Zeroed m := by
  have four := int32_length pairs.length
  have above : ∀ a, 4 ≤ a → store m' countAt (int32 pairs.length) a = m' a := by
    intro a high
    exact store_apart (by simp only [countAt]; omega)
  have first : load (store m' countAt (int32 pairs.length)) padding1At 12 =
      load m padding1At 12 := by
    apply load_congr
    intro i small
    rw [above _ (by simp only [padding1At]; omega)]
    exact kept.below _ (by simp only [padding1At, entsAt_eq]; omega)
  have second : ∀ i, load (store m' countAt (int32 pairs.length)) (padding2At i) 2 =
      load m (padding2At i) 2 := by
    intro i
    rw [← kept.padding2 i]
    apply load_congr
    intro j _
    exact above _ (by simp only [padding2At, entsAt_eq]; omega)
  constructor
  · exact fun asks => asks.padding.congr first.symm fun i => (second i).symm
  · intro zeroed
    refine ⟨?_,?_,zeroed.congr first second⟩
    · simpa only [four] using load_store m' countAt (int32 pairs.length)
    · intro i p there
      obtain ⟨id,named,entry⟩ := entries i p there
      refine ⟨id,named,entry.congr ?_⟩
      intro a low _
      exact above a (by rw [entsAt_eq] at low; omega)

end

section
variable {lib : Libubi} {d : Device} {rnvol : Memory} {argv : List CString}

theorem main_refused (refused : ¬Starts lib argv) : main lib d rnvol argv = .exited (-1) := by
  unfold main
  split_ifs with arguments opened volume negative info
  · rfl
  · rfl
  · rfl
  · rfl
  · rfl
  · exact absurd ⟨by omega,by simpa using opened,by omega,by simpa using info⟩ refused

theorem main_started (starts : Starts lib argv) : main lib d rnvol argv =
    match fill lib d rnvol 0 (pairsOf (argv.drop 2)) with
    | .error ended => ended
    | .ok (m, count) => ubiRnvols lib (store m countAt (int32 count)) := by
  obtain ⟨arguments,opened,node,info⟩ := starts
  unfold main
  rw [if_neg (by omega), if_neg (by simp [opened]), if_neg node.1, if_neg (by omega),
    if_neg (by simp [info])]

end

/-- ubirename stores nothing outside and asks for what it was asked for, exactly when as far as
    it gets the pairs are within the limits and the padding was zero before. -/
theorem renames_iff (lib : Libubi) (d : Device) (rnvol : Memory) (argv : List CString) :
    Right d (pairsOf (argv.drop 2)) (main lib d rnvol argv) ↔ Meets lib d rnvol argv := by
  by_cases starts : Starts lib argv
  · rw [main_started starts, Meets]
    simp only [starts, true_implies]
    rcases fill_cases (pairsOf (argv.drop 2)) with
      ⟨m',filled,fits,all,kept,entries⟩ | ⟨ended,outside⟩ | ⟨stopped,fits,missing⟩
    · rw [filled]
      simp only [fits, all, true_and, true_implies, Nat.zero_add] at entries ⊢
      unfold ubiRnvols
      cases lib.nodeOpens with
      | true =>
        simp only [if_true, true_implies]
        exact asks_iff kept entries
      | false => simp [Right]
    · rw [ended]
      simp only [Right, outside, false_and]
    · rw [stopped]
      simp [Right, fits, missing]
  · rw [main_refused starts, Meets]
    simp [Right, starts]

def oneVolume : Device where
  lowest := 0
  highest := 0
  volumes i := if i = 0 then some [65] else none
  distinct i j name one two := by
    split_ifs at one two with first second
    rw [first, second]
  ids i name there := by
    split_ifs at there with first
    omega
  int := by decide

def working : Libubi :=
  { opened := true, nodeType := 1, devInfo := true, unreadable := fun _ _ => false
    nodeOpens := true, renamed := 0 }

def renameA (new : CString) : List CString :=
  [[117, 98, 105, 114, 101, 110, 97, 109, 101], [47, 100, 101, 118, 47, 117, 98, 105, 48], [65],
    new]

/-- On a stack of ones, the padding of the request is not zero. -/
theorem padding_left : ¬Right oneVolume (pairsOf ((renameA [66]).drop 2))
    (main working oneVolume (fun _ => 255) (renameA [66])) := by
  intro right
  have asks : Asks oneVolume _ _ := right
  exact absurd asks.padding.padding1 (by decide)

end Ubirename
