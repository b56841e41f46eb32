import Mathlib.Data.BitVec

/- Fields of a register: a write clears a mask and ors in bits that lie under it. -/
namespace BitFields
variable {w : Nat}

def write (old mask bits : BitVec w) : BitVec w := old &&& ~~~mask ||| bits

theorem write_inside {old mask bits field : BitVec w} (inside : field &&& mask = field) :
    write old mask bits &&& field = bits &&& field := by
  rw [← inside]
  ext i hi
  simp only [write, BitVec.getElem_and, BitVec.getElem_or, BitVec.getElem_not]
  cases mask[i] <;> simp

theorem write_outside {old mask bits : BitVec w} (within : bits &&& mask = bits) {i : Nat}
    (outside : mask.getLsbD i = false) : (write old mask bits).getLsbD i = old.getLsbD i := by
  by_cases hi : i < w
  · rw [← within]
    simp only [write, BitVec.getLsbD_or, BitVec.getLsbD_and, BitVec.getLsbD_not, outside, hi]
    cases old.getLsbD i <;> simp
  · simp [write, BitVec.getLsbD_of_ge _ _ (Nat.le_of_not_lt hi)]

theorem write_apart (old : BitVec w) {mask bits field : BitVec w} (within : bits &&& mask = bits)
    (apart : field &&& mask = 0) : write old mask bits &&& field = old &&& field := by
  ext i hi
  have clear : (field[i] && mask[i]) = false := by
    rw [← BitVec.getElem_and, apart]
    simp
  rw [← within]
  simp only [write, BitVec.getElem_and, BitVec.getElem_or, BitVec.getElem_not]
  revert clear
  cases field[i] <;> cases mask[i] <;> simp

theorem or_shift (high n : Nat) {low : Nat} (small : low < 2 ^ n) :
    high <<< n ||| low = high * 2 ^ n + low := by
  rw [← Nat.shiftLeft_add_eq_or_of_lt small, Nat.shiftLeft_eq]

theorem or_shift_above {low n : Nat} (small : low < 2 ^ n) (high : Nat) :
    low ||| high <<< n = low + high * 2 ^ n := by
  rw [Nat.or_comm, or_shift high n small, Nat.add_comm]

end BitFields
