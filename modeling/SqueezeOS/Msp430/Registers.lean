import SqueezeOS.Kernel.Guarded
import SqueezeOS.Kernel.Strings

/- The register attributes of the MSP430 driver, with the unlocks of fix-i2c-mutex.patch. -/
namespace Msp430Registers
open Guarded KernelStrings

def erange : Int := -34

/-- What SENSOR_DEVICE_ATTR_2 gives an attribute: the width of its register in bytes and the
    number of the register. -/
structure Attr where
  nr : Nat
  index : Nat
  deriving DecidableEq, Repr

abbrev Bus := List (Nat × List UInt8)

/-- An int shifted by a multiple of 8, as the ARM target does it. -/
def shiftedOne (amount : Nat) : Nat := 2 ^ amount % 2 ^ 32

/-- The first values are those of the buffer that the block is read into. -/
def deadbeef : List UInt8 := [0xde, 0xad, 0xbe, 0xef, 0xde, 0xad, 0xbe, 0xef]

/-- From the last byte down to the first, in a long long. -/
def gather (values : List UInt8) : Nat :=
  values.foldr (fun byte val => (val <<< 8) % 2 ^ 64 ||| byte.toNat) 0

def scatter : Nat → Nat → List UInt8
  | 0, _ => []
  | nr + 1, val => UInt8.ofNat (val &&& 0xFF) :: scatter nr (val >>> 8)

def printed (text : List UInt8) : String := String.ofList (text.map fun c => Char.ofNat c.toNat)

/-- `block` is what the chip answers, `ret` what the transfer returns. -/
def msp430I2cShow (sattr : Attr) (ret : Int) (block : List UInt8) : Operation Bus :=
  mutexLock fun s =>
    if ret < 0 then some (.error ret, mutexUnlock s)
    else
      let values := (block ++ deadbeef.drop block.length).take sattr.nr
      some (.shown (printed (sprintfLlu (gather values) ++ [10])), mutexUnlock s)

def msp430I2cStore (sattr : Attr) (buf : List UInt8) (ret : Int) : Operation Bus := fun s =>
  match sscanfLld buf with
  | none => some (.error einval, s)
  | some val =>
      if sattr.nr < 8 ∧ val ≥ shiftedOne (8 * sattr.nr) then some (.error erange, s)
      else mutexLock (fun s =>
        if ret < 0 then some (.error ret, mutexUnlock s)
        else some (.stored buf.length,
          mutexUnlock { s with data := s.data ++ [(sattr.index, scatter sattr.nr val)] })) s

def RoundTrips (sattr : Attr) (v : Nat) : Prop :=
  ∀ (s : Driver Bus) (ret : Int), s.locked = false → 0 ≤ ret →
    (v < 2 ^ (8 * sattr.nr) → ∃ bytes, bytes.length = sattr.nr ∧
      msp430I2cStore sattr (sprintfLlu v) ret s =
        some (.stored (sprintfLlu v).length, { s with data := s.data ++ [(sattr.index, bytes)] }) ∧
      ∀ t : Driver Bus, t.locked = false →
        msp430I2cShow sattr ret bytes t = some (.shown (printed (sprintfLlu v ++ [10])), t)) ∧
    (sattr.nr < 8 → 2 ^ (8 * sattr.nr) ≤ v →
      msp430I2cStore sattr (sprintfLlu v) ret s = some (.error erange, s))

theorem scatter_length (nr val : Nat) : (scatter nr val).length = nr := by
  induction nr generalizing val with
  | zero => simp [scatter]
  | succ nr ih => simp [scatter, ih]

theorem gather_cons (byte : UInt8) (values : List UInt8) :
    gather (byte :: values) = (gather values * 256 + byte.toNat) % 2 ^ 64 := by
  have low : byte.toNat < 2 ^ 8 := byte.toNat_lt
  have shifted : (gather values <<< 8) % 2 ^ 64 = (gather values % 2 ^ 56) <<< 8 := by
    rw [Nat.shiftLeft_eq, Nat.shiftLeft_eq]
    omega
  change (gather values <<< 8) % 2 ^ 64 ||| byte.toNat = _
  rw [shifted, ← Nat.shiftLeft_add_eq_or_of_lt low, Nat.shiftLeft_eq]
  omega

theorem gather_scatter (nr val : Nat) (narrow : nr ≤ 8) :
    gather (scatter nr val) = val % 2 ^ (8 * nr) := by
  induction nr generalizing val with
  | zero => simp [scatter, gather, Nat.mod_one]
  | succ nr ih =>
    have byte : (UInt8.ofNat (val &&& 0xFF)).toNat = val % 256 := by
      have masked : val &&& 0xFF = val % 256 := Nat.and_two_pow_sub_one_eq_mod val 8
      rw [masked, UInt8.toNat_ofNat']
      omega
    have fits : 2 ^ (8 * (nr + 1)) ≤ 2 ^ 64 := Nat.pow_le_pow_right (by decide) (by omega)
    have split : val % 2 ^ (8 * (nr + 1)) = val % 2 ^ 8 + 2 ^ 8 * (val / 2 ^ 8 % 2 ^ (8 * nr)) := by
      rw [show 8 * (nr + 1) = 8 + 8 * nr by omega, pow_add, Nat.mod_mul]
    have below : val % 2 ^ (8 * (nr + 1)) < 2 ^ (8 * (nr + 1)) := Nat.mod_lt _ (by positivity)
    rw [scatter, gather_cons, byte, ih _ (by omega), Nat.shiftRight_eq_div_pow, split]
    rw [split] at below
    omega

/-- The range check, on the value as it was parsed. -/
def OutOfRange (sattr : Attr) (v : Nat) : Prop :=
  sattr.nr < 8 ∧ v % 2 ^ 64 ≥ shiftedOne (8 * sattr.nr)

theorem store_refused {sattr : Attr} {v : Nat} (ret : Int) (s : Driver Bus)
    (refused : OutOfRange sattr v) :
    msp430I2cStore sattr (sprintfLlu v) ret s = some (.error erange, s) := by
  unfold OutOfRange at refused
  simp only [msp430I2cStore, sscanfLld_sprintfLlu]
  rw [if_pos refused]

theorem store_accepted {sattr : Attr} {v : Nat} {ret : Int} {s : Driver Bus}
    (accepted : ¬ OutOfRange sattr v)
    (free : s.locked = false) (passed : 0 ≤ ret) :
    msp430I2cStore sattr (sprintfLlu v) ret s = some (.stored (sprintfLlu v).length,
      { s with data := s.data ++ [(sattr.index, scatter sattr.nr (v % 2 ^ 64))] }) := by
  obtain ⟨locked,blocks⟩ := s
  cases free
  unfold OutOfRange at accepted
  simp only [msp430I2cStore, sscanfLld_sprintfLlu]
  rw [if_neg accepted]
  simp [mutexLock, mutexUnlock, not_lt.mpr passed]

theorem show_scatter {sattr : Attr} {v : Nat} {ret : Int} {t : Driver Bus} (narrow : sattr.nr ≤ 8)
    (small : v % 2 ^ 64 % 2 ^ (8 * sattr.nr) = v) (free : t.locked = false) (passed : 0 ≤ ret) :
    msp430I2cShow sattr ret (scatter sattr.nr (v % 2 ^ 64)) t =
      some (.shown (printed (sprintfLlu v ++ [10])), t) := by
  obtain ⟨locked,blocks⟩ := t
  cases free
  have taken : (scatter sattr.nr (v % 2 ^ 64) ++ deadbeef.drop sattr.nr).take sattr.nr =
      scatter sattr.nr (v % 2 ^ 64) := List.take_left' (scatter_length _ _)
  simp only [msp430I2cShow, scatter_length, taken, gather_scatter _ _ narrow, small]
  simp [mutexLock, mutexUnlock, not_lt.mpr passed]

theorem roundTrips_of_check {sattr : Attr} {v : Nat} (narrow : sattr.nr ≤ 8)
    (check : v < 2 ^ (8 * sattr.nr) ↔ ¬ OutOfRange sattr v) : RoundTrips sattr v := by
  intro s ret free passed
  constructor
  · intro fits
    have word : 2 ^ (8 * sattr.nr) ≤ 2 ^ 64 := Nat.pow_le_pow_right (by decide) (by omega)
    have small : v % 2 ^ 64 % 2 ^ (8 * sattr.nr) = v := by
      rw [Nat.mod_eq_of_lt (lt_of_lt_of_le fits word), Nat.mod_eq_of_lt fits]
    refine ⟨scatter sattr.nr (v % 2 ^ 64),scatter_length _ _,?_,?_⟩
    · exact store_accepted (check.mp fits) free passed
    · intro t unlocked
      exact show_scatter narrow small unlocked passed
  · intro _ large
    apply store_refused
    by_contra accepted
    exact absurd (check.mpr accepted) (not_lt.mpr large)

theorem check_of_roundTrips {sattr : Attr} {v : Nat} (signed : ¬ sattr.nr < 8 → v < 2 ^ (8 * sattr.nr))
    (holds : RoundTrips sattr v) : v < 2 ^ (8 * sattr.nr) ↔ ¬ OutOfRange sattr v := by
  obtain ⟨written,refused⟩ := holds ⟨false,[]⟩ 0 rfl le_rfl
  constructor
  · intro fits outOfRange
    obtain ⟨bytes,_,stored,_⟩ := written fits
    rw [store_refused 0 _ outOfRange] at stored
    simp at stored
  · intro accepted
    by_contra large
    by_cases short : sattr.nr < 8
    · have answer := refused short (not_lt.mp large)
      rw [store_accepted accepted rfl le_rfl] at answer
      simp at answer
    · exact large (signed short)

/-- The check compares with an int, so at a width of four bytes every value is refused. Below
    that it sees the value modulo the 64 bits it was parsed in. -/
theorem roundTrips_iff (sattr : Attr) (v : Nat)
    (width : sattr.nr = 1 ∨ sattr.nr = 2 ∨ sattr.nr = 4 ∨ sattr.nr = 8)
    (signed : sattr.nr = 8 → v < 2 ^ 63) :
    RoundTrips sattr v ↔ ¬ (sattr.nr = 4 ∧ v < 2 ^ 32) ∧
      ¬ (sattr.nr < 4 ∧ 2 ^ (8 * sattr.nr) ≤ v ∧ v % 2 ^ 64 < 2 ^ (8 * sattr.nr)) := by
  have whole : ¬ sattr.nr < 8 → v < 2 ^ (8 * sattr.nr) := by
    intro wide
    have eight : sattr.nr = 8 := by omega
    have below := signed eight
    rw [eight]
    omega
  have checked : RoundTrips sattr v ↔ (v < 2 ^ (8 * sattr.nr) ↔ ¬ OutOfRange sattr v) :=
    ⟨check_of_roundTrips whole,roundTrips_of_check (by omega)⟩
  rw [checked]
  unfold OutOfRange shiftedOne
  rcases width with one | two | four | eight
  · rw [one]
    omega
  · rw [two]
    omega
  · rw [four]
    omega
  · have below := signed eight
    rw [eight]
    omega

theorem roundTrips_kill : (⟨1,99⟩ : Attr).nr = 1 ∧ RoundTrips ⟨1,99⟩ 255 :=
  ⟨rfl,(roundTrips_iff ⟨1,99⟩ 255 (.inl rfl) (by decide)).mpr (by decide)⟩

/-- Nothing can be written to the attribute time, not even 0. -/
theorem time_refused : ¬ RoundTrips ⟨4,70⟩ 0 := by
  intro holds
  obtain ⟨written,_⟩ := holds ⟨false,[]⟩ 0 rfl le_rfl
  obtain ⟨bytes,_,stored,_⟩ := written (by decide)
  rw [store_refused 0 _ ⟨by decide,by decide⟩] at stored
  simp at stored

end Msp430Registers
