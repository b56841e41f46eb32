import SqueezeOS.SignatureRegister
import Mathlib.Algebra.Group.Nat.Defs
import Mathlib.Algebra.Polynomial.Div
import Mathlib.Algebra.CharP.Two
import Mathlib.RingTheory.Polynomial.DegreeLT
import Mathlib.Tactic.LinearCombination
import Mathlib.Data.Nat.Bitwise
import Mathlib.Algebra.Field.ZMod

/- The register of a checksum that takes in a message bit by bit and divides it by a polynomial over
   the field of two elements. The lowest bit stands for the highest power. -/
namespace DivisionRegister
open Polynomial SignatureRegister

/-- One bit of the message; `low` has the lower powers of the divisor. -/
def divide (low c : Nat) (bit : Bool) : Nat :=
  if c.testBit 0 ^^ bit then low ^^^ (c >>> 1) else c >>> 1

variable {width low : Nat}

theorem divide_lt {c : Nat} (lowInside : low < 2 ^ width) (inside : c < 2 ^ width) (bit : Bool) :
    divide low c bit < 2 ^ width := by
  have shifted : c >>> 1 < 2 ^ width := Nat.lt_of_le_of_lt (Nat.shiftRight_le c 1) inside
  unfold divide
  split
  · exact Nat.xor_lt_two_pow lowInside shifted
  · exact shifted

theorem divide_testBit (c : Nat) (bit : Bool) (i : Nat) : (divide low c bit).testBit i =
    (((c.testBit 0 ^^ bit) && low.testBit i) ^^ c.testBit (i + 1)) := by
  have next : (c >>> 1).testBit i = c.testBit (i + 1) := by
    rw [Nat.testBit_shiftRight, Nat.add_comm]
  unfold divide
  cases fed : (c.testBit 0 ^^ bit) with
  | true => rw [if_pos rfl, Nat.testBit_xor, next, Bool.true_and]
  | false => rw [if_neg Bool.false_ne_true, next, Bool.false_and, Bool.false_xor]

abbrev State (width : Nat) : Type := { c : Nat // c < 2 ^ width }

def Agree (n : Nat) (s t : State width) : Prop :=
  ∀ i, width - n ≤ i → i < width → s.1.testBit i = t.1.testBit i

theorem agree_all (s t : State width) (agree : Agree width s t) : s = t := by
  apply Subtype.ext
  apply Nat.eq_of_testBit_eq
  intro i
  by_cases inside : i < width
  · exact agree i (by omega) inside
  · have above : 2 ^ width ≤ 2 ^ i := Nat.pow_le_pow_right (by omega) (by omega)
    rw [Nat.testBit_lt_two_pow (Nat.lt_of_lt_of_le s.2 above),
      Nat.testBit_lt_two_pow (Nat.lt_of_lt_of_le t.2 above)]

/-- The bit that is filled last tells what was fed, if the divisor has its lowest power. -/
def register (low : Nat) (lowInside : low < 2 ^ width) (some_bit : 0 < width)
    (top : low.testBit (width - 1) = true) : Register (State width) Bool Bool where
  step s bit := ⟨divide low s.1 bit,divide_lt lowInside s.2 bit⟩
  fed s bit := s.1.testBit 0 ^^ bit
  cells := width
  Agree := Agree
  some_cell := some_bit
  agree_refl _ _ _ _ _ := rfl
  agree_all := agree_all
  agree_back n s t d e below agree := by
    have fed : (s.1.testBit 0 ^^ d) = (t.1.testBit 0 ^^ e) := by
      have last := agree (width - 1) (by omega) (by omega)
      have out (c : State width) : c.1.testBit (width - 1 + 1) = false :=
        Nat.testBit_lt_two_pow (by rw [Nat.sub_add_cancel some_bit]; exact c.2)
      rw [divide_testBit, divide_testBit, top, out, out] at last
      simpa using last
    refine ⟨fed,?_⟩
    intro i above inside
    have here := agree (i - 1) (by omega) (by omega)
    rw [divide_testBit, divide_testBit, fed, Nat.sub_add_cancel (by omega)] at here
    exact Bool.xor_right_inj.mp here
  fed_symbol s d e same := Bool.xor_right_inj.mp same
  fed_state s t d same agree := by
    apply agree_all
    intro i _ inside
    by_cases first : i = 0
    · rw [first]
      exact Bool.xor_left_inj.mp same
    · exact agree i (by omega) inside

noncomputable def poly (width c : Nat) : (ZMod 2)[X] :=
  ∑ i ∈ Finset.range width, if c.testBit i then X ^ (width - 1 - i) else 0

noncomputable def divisor (width low : Nat) : (ZMod 2)[X] := X ^ width + poly width low

noncomputable def message : List Bool → (ZMod 2)[X]
  | [] => 0
  | bit :: bits => (if bit then X ^ bits.length else 0) + message bits

theorem poly_xor (a b : Nat) : poly width (a ^^^ b) = poly width a + poly width b := by
  rw [poly, poly, poly, ← Finset.sum_add_distrib]
  refine Finset.sum_congr rfl fun i _ => ?_
  have twice := CharTwo.add_self_eq_zero (X ^ (width - 1 - i) : (ZMod 2)[X])
  rw [Nat.testBit_xor]
  cases a.testBit i <;> cases b.testBit i <;> simp [twice]

theorem poly_shift {c : Nat} (inside : c < 2 ^ (width + 1)) :
    poly (width + 1) (c >>> 1) + (if c.testBit 0 then X ^ (width + 1) else 0) =
      X * poly (width + 1) c := by
  have out : c.testBit (width + 1) = false := Nat.testBit_lt_two_pow inside
  have moved : ∀ i ∈ Finset.range width,
      (if (c >>> 1).testBit i then (X ^ (width + 1 - 1 - i) : (ZMod 2)[X]) else 0) =
        X * if c.testBit (i + 1) then X ^ (width + 1 - 1 - (i + 1)) else 0 := by
    intro i member
    have below := Finset.mem_range.mp member
    have power : width + 1 - 1 - i = width + 1 - 1 - (i + 1) + 1 := by omega
    rw [Nat.testBit_shiftRight, Nat.add_comm 1 i, power]
    split
    · exact pow_succ' X _
    · exact (mul_zero X).symm
  rw [poly, poly, Finset.sum_range_succ, Finset.sum_range_succ', Finset.sum_congr rfl moved,
    Nat.testBit_shiftRight, Nat.add_comm 1 width, out, mul_add, Finset.mul_sum]
  cases c.testBit 0 <;> simp [pow_succ']

theorem poly_divide {c : Nat} (inside : c < 2 ^ (width + 1)) (bit : Bool) :
    poly (width + 1) (divide low c bit) = X * poly (width + 1) c +
      (if bit then X ^ (width + 1) else 0) +
      if (c.testBit 0 ^^ bit) then divisor (width + 1) low else 0 := by
  have twice := CharTwo.add_self_eq_zero (X ^ (width + 1) : (ZMod 2)[X])
  rw [← poly_shift inside, divide, divisor]
  cases c.testBit 0 <;> cases bit <;> simp [poly_xor]
  · rw [add_comm, add_assoc, ← add_assoc (X ^ (width + 1)), twice, zero_add]
  · rw [add_comm, add_assoc, ← add_assoc (X ^ (width + 1)), twice, zero_add]
  · rw [add_assoc, twice, add_zero]

theorem degree_poly (c : Nat) : (poly width c).degree < width := by
  rw [← mem_degreeLT]
  refine Submodule.sum_mem _ fun i member => ?_
  have below := Finset.mem_range.mp member
  rw [mem_degreeLT]
  split
  · rw [degree_X_pow]
    exact_mod_cast (show width - 1 - i < width by omega)
  · rw [degree_zero]
    exact WithBot.bot_lt_coe width

theorem divisor_monic : (divisor width low).Monic := monic_X_pow_add (degree_poly low)

theorem degree_divisor : (divisor width low).degree = width := by
  rw [divisor, degree_add_eq_left_of_degree_lt, degree_X_pow]
  rw [degree_X_pow]
  exact degree_poly low

theorem run_divides {c : Nat} (lowInside : low < 2 ^ (width + 1)) (inside : c < 2 ^ (width + 1))
    (bits : List Bool) : ∃ q, poly (width + 1) (bits.foldl (divide low) c) +
      divisor (width + 1) low * q =
        X ^ bits.length * poly (width + 1) c + X ^ (width + 1) * message bits := by
  induction bits generalizing c with
  | nil => exact ⟨0,by simp [message]⟩
  | cons bit bits ih =>
    obtain ⟨q,later⟩ := ih (divide_lt lowInside inside bit)
    refine ⟨q - (if (c.testBit 0 ^^ bit) then X ^ bits.length else 0),?_⟩
    rw [poly_divide inside] at later
    rw [List.foldl_cons, List.length_cons, message]
    generalize poly (width + 1) (bits.foldl (divide low) (divide low c bit)) = left at later ⊢
    generalize (c.testBit 0 ^^ bit) = fed at later ⊢
    cases fed <;> cases bit <;> simp at later ⊢ <;> linear_combination later

/-- What is left in the register is the remainder of the message, behind what was in it before. -/
theorem run_remainder {c : Nat} (lowInside : low < 2 ^ (width + 1)) (inside : c < 2 ^ (width + 1))
    (bits : List Bool) : poly (width + 1) (bits.foldl (divide low) c) =
      (X ^ bits.length * poly (width + 1) c + X ^ (width + 1) * message bits) %ₘ
        divisor (width + 1) low := by
  obtain ⟨q,divides⟩ := run_divides lowInside inside bits
  have small : (poly (width + 1) (bits.foldl (divide low) c)).degree <
      (divisor (width + 1) low).degree := by
    rw [degree_divisor]
    exact degree_poly _
  exact (div_modByMonic_unique _ _ divisor_monic ⟨divides,small⟩).2.symm

end DivisionRegister
