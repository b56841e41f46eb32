import Mathlib.Algebra.Group.Int.Defs
import Mathlib.Algebra.Group.Nat.Defs
import Mathlib.Data.List.Chain

/- A counter of 32 bits that is extended to 64 by counting its wraps. A reading is taken for a
   wrap when it is below the one before by more than a limit; readings that are less far behind
   than that are ignored. -/
namespace WrappingCounter

def wrapped (limit : Nat) (prev now : BitVec 32) : Bool :=
  now < prev && limit < (prev - now).toNat

def FallsBack (a b : Int) : Prop := b / 2 ^ 32 < a / 2 ^ 32

def LeapsOver (limit : Nat) (a b : Int) : Prop :=
  a / 2 ^ 32 < b / 2 ^ 32 ∧ 2 ^ 32 - limit ≤ b - a

instance (a b : Int) : Decidable (FallsBack a b) := inferInstanceAs (Decidable (_ < _))
instance (limit : Nat) (a b : Int) : Decidable (LeapsOver limit a b) :=
  inferInstanceAs (Decidable (_ ∧ _))

/-- How many more readings fell back than leapt over, up to `b`. -/
def drift (limit : Nat) (sofar a b : Int) : Int :=
  sofar + (if FallsBack a b then 1 else 0) - (if LeapsOver limit a b then 1 else 0)

def Near (limit : Nat) (a b : Int) : Prop := a - b ≤ limit ∧ b - a < 2 ^ 32

/-- The wraps counted so far are those of the reading `a`, and `e` more. -/
structure Reads (prev : BitVec 32) (upper : BitVec 64) (a e : Int) : Prop where
  prev : prev = BitVec.ofInt 32 a
  upper : upper = BitVec.ofInt 64 (2 ^ 32 * (a / 2 ^ 32 + e))

theorem isChain_readings {α : Type} {R : Int → Int → Prop} {S : α → α → Prop} {a : Int}
    {reading : α → Int} {run : List α} (grows : run.IsChain S)
    (first : ∀ c ∈ run.head?, c ∈ run → R a (reading c))
    (later : ∀ c ∈ run, ∀ d ∈ run, S c d → R (reading c) (reading d)) :
    (a :: run.map reading).IsChain R := by
  cases run with
  | nil => exact .singleton a
  | cons c rest =>
    refine .cons_cons (first c rfl List.mem_cons_self) ?_
    rw [← List.map_cons, List.isChain_map]
    exact grows.imp_of_mem_imp fun c d hc hd grown => later c hc d hd grown

theorem toNat_reading (count : Int) : ((BitVec.ofInt 32 count).toNat : Int) = count % 2 ^ 32 := by
  rw [BitVec.toNat_ofInt]
  exact Int.toNat_of_nonneg (Int.emod_nonneg _ (by decide))

theorem or_reading (wraps b : Int) :
    BitVec.ofInt 64 (2 ^ 32 * wraps) ||| (BitVec.ofInt 32 b).setWidth 64 =
      BitVec.ofInt 64 (2 ^ 32 * wraps + b % 2 ^ 32) := by
  have upper : (BitVec.ofInt 64 (2 ^ 32 * wraps)).toNat = 2 ^ 32 * (wraps % 2 ^ 32).toNat := by
    rw [BitVec.toNat_ofInt]
    omega
  have lower : ((BitVec.ofInt 32 b).setWidth 64).toNat = (b % 2 ^ 32).toNat := by
    rw [BitVec.toNat_setWidth, BitVec.toNat_ofInt]
    omega
  apply BitVec.eq_of_toNat_eq
  rw [BitVec.toNat_or, upper, lower, ← Nat.two_pow_add_eq_or_of_lt (by omega),
    BitVec.toNat_ofInt]
  omega

section
variable {limit : Nat} {a b e : Int}

theorem wrapped_iff (near : Near limit a b) (small : limit < 2 ^ 32) :
    wrapped limit (BitVec.ofInt 32 a) (BitVec.ofInt 32 b) = true ↔
      a / 2 ^ 32 < b / 2 ^ 32 ∧ b - a < 2 ^ 32 - limit := by
  obtain ⟨behind,ahead⟩ := near
  have before := toNat_reading a
  have now := toNat_reading b
  unfold wrapped
  rw [Bool.and_eq_true, decide_eq_true_eq, decide_eq_true_eq, BitVec.lt_def, BitVec.toNat_sub]
  omega

theorem drift_wraps (e : Int) (near : Near limit a b) (small : limit < 2 ^ 32) :
    b / 2 ^ 32 + drift limit e a b =
      a / 2 ^ 32 + e + if a / 2 ^ 32 < b / 2 ^ 32 ∧ b - a < 2 ^ 32 - limit then 1 else 0 := by
  obtain ⟨behind,ahead⟩ := near
  unfold drift
  by_cases fall : FallsBack a b <;> by_cases leap : LeapsOver limit a b
  all_goals
    simp only [fall, leap, if_true, if_false]
    unfold FallsBack at fall
    unfold LeapsOver at leap
    split <;> omega

theorem Reads.next {prev : BitVec 32} {upper : BitVec 64} (reads : Reads prev upper a e)
    (near : Near limit a b) (small : limit < 2 ^ 32) :
    Reads (BitVec.ofInt 32 b)
      (if wrapped limit prev (BitVec.ofInt 32 b) then upper + 1 <<< 32 else upper) b
      (drift limit e a b) := by
  refine ⟨rfl,?_⟩
  have detected := wrapped_iff near small
  have one : (1 <<< 32 : BitVec 64) = BitVec.ofInt 64 (2 ^ 32) := rfl
  rw [reads.prev, reads.upper, one, ← BitVec.ofInt_add, drift_wraps e near small]
  by_cases passed : a / 2 ^ 32 < b / 2 ^ 32 ∧ b - a < 2 ^ 32 - limit
  · rw [if_pos (detected.mpr passed), if_pos passed, Int.mul_add _ (_ + e)]
    rfl
  · rw [if_neg (fun found => passed (detected.mp found)), if_neg passed, Int.add_zero]

theorem Reads.count {upper : BitVec 64} (reads : Reads (BitVec.ofInt 32 b) upper b e) :
    upper ||| (BitVec.ofInt 32 b).setWidth 64 = BitVec.ofInt 64 (b + 2 ^ 32 * e) := by
  rw [reads.upper, or_reading]
  congr 1
  omega

end

end WrappingCounter
