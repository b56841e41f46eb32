import SqueezeOS.DivisionRegister
import SqueezeOS.UBoot.Crc32

/- What crc32.c says about its table: the checksum is the remainder of the bytes, taken for a
   polynomial, and what changes it. -/
namespace Crc32
open DivisionRegister SignatureRegister Polynomial

def pattern : Nat := 0xedb88320

def byteBits (byte : UInt8) : List Bool := (List.range 8).map fun i => byte.toNat.testBit i

def bits (buf : List UInt8) : List Bool := buf.flatMap byteBits

def shifts : Nat → Nat → Nat
  | 0, c => c
  | n + 1, c => shifts n (shift c)

theorem shift_testBit (c i : Nat) :
    (shift c).testBit i = ((c.testBit 0 && pattern.testBit i) ^^ c.testBit (i + 1)) := by
  have low : shift c = divide pattern c false := by
    have bit : c &&& 1 = 1 ↔ c.testBit 0 = true := by
      rw [Nat.testBit_zero, decide_eq_true_iff, Nat.and_one_is_mod]
    simp only [shift, divide, bit, Bool.xor_false, pattern]
  rw [low, divide_testBit, Bool.xor_false]

theorem shift_xor (a b : Nat) : shift (a ^^^ b) = shift a ^^^ shift b := by
  apply Nat.eq_of_testBit_eq
  intro i
  simp only [shift_testBit, Nat.testBit_xor]
  cases a.testBit 0 <;> cases b.testBit 0 <;> cases pattern.testBit i <;> cases a.testBit (i + 1) <;>
    cases b.testBit (i + 1) <;> rfl

theorem shifts_xor (n a b : Nat) : shifts n (a ^^^ b) = shifts n a ^^^ shifts n b := by
  induction n generalizing a b with
  | zero => rfl
  | succ n ih => rw [shifts, shift_xor, ih]; rfl

theorem shifts_high (n c : Nat) : shifts n (c <<< n) = c := by
  induction n with
  | zero => rfl
  | succ n ih =>
    have one : shift (c <<< (n + 1)) = c <<< n := by
      apply Nat.eq_of_testBit_eq
      intro i
      simp [shift_testBit, Nat.testBit_shiftLeft]
    rw [shifts, one, ih]

theorem shifts_bits (n c b : Nat) (small : b < 2 ^ n) :
    shifts n (c ^^^ b) = ((List.range n).map fun i => b.testBit i).foldl (divide pattern) c := by
  induction n generalizing c b with
  | zero =>
    obtain rfl : b = 0 := by simpa using small
    simp [shifts]
  | succ n ih =>
    have one : shift (c ^^^ b) = divide pattern c (b.testBit 0) ^^^ (b >>> 1) := by
      apply Nat.eq_of_testBit_eq
      intro i
      simp only [shift_testBit, Nat.testBit_xor, divide_testBit, Nat.testBit_shiftRight,
        Nat.add_comm 1 i]
      rw [Bool.xor_assoc]
    have half : b >>> 1 < 2 ^ n := by
      rw [Nat.shiftRight_eq_div_pow]
      omega
    rw [shifts, one, ih _ _ half, List.range_succ_eq_map, List.map_cons, List.map_map,
      List.foldl_cons]
    simp only [Nat.testBit_shiftRight, Nat.add_comm 1]
    rfl

theorem xor_low (c : Nat) : c &&& 0xff ^^^ ((c >>> 8) <<< 8) = c := by
  apply Nat.eq_of_testBit_eq
  intro i
  have mask : (0xff : Nat) = 2 ^ 8 - 1 := rfl
  rw [Nat.testBit_xor, Nat.testBit_and, mask, Nat.testBit_two_pow_sub_one, Nat.testBit_shiftLeft,
    Nat.testBit_shiftRight]
  by_cases low : i < 8
  · have above : ¬ 8 ≤ i := by omega
    simp [low, above]
  · simp [low, Nat.add_sub_cancel' (Nat.le_of_not_lt low), Nat.le_of_not_lt low]

theorem do1_bits (crc : Nat) (byte : UInt8) :
    do1 crc byte = (byteBits byte).foldl (divide pattern) crc := by
  have inside : (crc ^^^ byte.toNat) &&& 0xff < 256 := Nat.and_lt_two_pow _ (by decide : 0xff < 2 ^ 8)
  have entry : crcTable.getD ((crc ^^^ byte.toNat) &&& 0xff) 0 =
      shifts 8 ((crc ^^^ byte.toNat) &&& 0xff) := by
    rw [crcTable_made, List.getD_eq_getElem?_getD, List.getElem?_map, List.getElem?_range inside]
    rfl
  have above : (crc ^^^ byte.toNat) >>> 8 = crc >>> 8 := by
    rw [Nat.shiftRight_xor_distrib, Nat.shiftRight_eq_zero byte.toNat 8 byte.toNat_lt, Nat.xor_zero]
  have whole := shifts_xor 8 ((crc ^^^ byte.toNat) &&& 0xff) (((crc ^^^ byte.toNat) >>> 8) <<< 8)
  rw [xor_low, shifts_high, above] at whole
  rw [do1, entry, ← whole]
  exact shifts_bits 8 crc byte.toNat byte.toNat_lt

theorem foldl_bits (crc : Nat) (buf : List UInt8) :
    buf.foldl do1 crc = (bits buf).foldl (divide pattern) crc := by
  induction buf generalizing crc with
  | nil => rfl
  | cons byte buf ih =>
    rw [List.foldl_cons, ih, do1_bits, bits, bits, List.flatMap_cons, List.foldl_append]

theorem bits_length (buf : List UInt8) : (bits buf).length = 8 * buf.length := by
  induction buf with
  | nil => rfl
  | cons byte buf ih =>
    rw [bits, List.flatMap_cons, List.length_append, ← bits, ih]
    simp [byteBits, Nat.mul_add, Nat.add_comm]

/-- The polynomial that the comment in front of make_crc_table names. -/
noncomputable def crcPolynomial : (ZMod 2)[X] :=
  X ^ 32 + X ^ 26 + X ^ 23 + X ^ 22 + X ^ 16 + X ^ 12 + X ^ 11 + X ^ 10 + X ^ 8 + X ^ 7 + X ^ 5 +
    X ^ 4 + X ^ 2 + X + 1

theorem divisor_pattern : divisor 32 pattern = crcPolynomial := by
  have terms : ∀ i < 32, pattern.testBit i =
      decide (31 - i ∈ [0, 1, 2, 4, 5, 7, 8, 10, 11, 12, 16, 22, 23, 26]) := by decide
  have whole : poly 32 pattern = ∑ i ∈ Finset.range 32,
      if 31 - i ∈ [0, 1, 2, 4, 5, 7, 8, 10, 11, 12, 16, 22, 23, 26] then X ^ (31 - i) else 0 := by
    refine Finset.sum_congr rfl fun i member => ?_
    rw [terms i (Finset.mem_range.mp member)]
    simp only [decide_eq_true_eq]
  rw [divisor, whole]
  simp [Finset.sum_range_succ, crcPolynomial]
  ring

/-- The checksum is the remainder of the bytes times X to the 32, behind the checksum of what came
    before, as the comment has it; in and out of it goes the complement. -/
theorem crc32_remainder {crc : Nat} (inside : crc < 2 ^ 32) (buf : List UInt8) :
    poly 32 (crc32 crc buf ^^^ 0xffffffff) =
      (X ^ (8 * buf.length) * poly 32 (crc ^^^ 0xffffffff) + X ^ 32 * message (bits buf)) %ₘ
        crcPolynomial := by
  have start : crc ^^^ 0xffffffff < 2 ^ 32 := Nat.xor_lt_two_pow inside (by decide)
  rw [crc32, Nat.xor_assoc, Nat.xor_self, Nat.xor_zero, foldl_bits, ← bits_length, ← divisor_pattern]
  exact run_remainder (by decide) start (bits buf)

theorem crc32_remainder_a : poly 32 (crc32 0 [97] ^^^ 0xffffffff) =
    (X ^ 8 * poly 32 (0 ^^^ 0xffffffff) + X ^ 32 * message (bits [97])) %ₘ crcPolynomial :=
  crc32_remainder (Nat.two_pow_pos 32) [97]

def crcRegister : Register (State 32) Bool Bool :=
  register pattern (by decide) (by decide) (by decide)

theorem crcRegister_run (s : State 32) (bits : List Bool) :
    (crcRegister.run s bits).1 = bits.foldl (divide pattern) s.1 := by
  induction bits generalizing s with
  | nil => rfl
  | cons bit bits ih => exact ih _

structure Burst (a b : List UInt8) (front u v behind : List Bool) : Prop where
  one : bits a = front ++ u ++ behind
  other : bits b = front ++ v ++ behind
  long : u.length = v.length
  short : u.length ≤ 32
  changed : u ≠ v

theorem crc32_burst {crc : Nat} (inside : crc < 2 ^ 32) {a b : List UInt8}
    {front u v behind : List Bool} (burst : Burst a b front u v behind) :
    crc32 crc a ≠ crc32 crc b := by
  intro same
  have start : crc ^^^ 0xffffffff < 2 ^ 32 := Nat.xor_lt_two_pow inside (by decide)
  have registers := Nat.xor_left_injective same
  simp only [foldl_bits, burst.one, burst.other] at registers
  refine burst_detected (r := crcRegister) (s := ⟨_,start⟩) front behind burst.long burst.short
    burst.changed (Subtype.ext ?_)
  rw [crcRegister_run, crcRegister_run]
  exact registers

end Crc32
