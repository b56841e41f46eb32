import SqueezeOS.Flac.FixedRestore
import SqueezeOS.Flac.LpcRestore
import SqueezeOS.Flac.LpcWide
import Mathlib.Algebra.Group.ForwardDiff

/- What the restorers are there for: the decoder gets back the samples whose residual a subframe
   carries. -/
namespace RestoreSignal
open Arm

section
variable {job : Job} {signal : Nat → Word}

theorem Job.word_warm {t : Nat} (warm : t < job.order) :
    job.word t = job.mem (addr job.base t) := by
  have none : t + 1 - job.order = 0 := by omega
  rw [Job.word, sample, none]
  rfl

structure Job.Carries (job : Job) (signal : Nat → Word) : Prop where
  warm : ∀ t < job.order, job.mem (addr job.base t) = signal t
  residual : ∀ i < job.len, job.mem (addr job.residual i) +
    (job.predict fun j => signal (i + (job.order - 1 - j))) = signal (job.order + i)

theorem Job.Carries.word (carries : job.Carries signal) (t : Nat) (inside : t < job.order + job.len) :
    job.word t = signal t := by
  induction t using Nat.strong_induction_on with
  | h t ih =>
    by_cases warm : t < job.order
    · rw [word_warm warm, carries.warm t warm]
    · obtain ⟨i,rfl⟩ : ∃ i, t = job.order + i := ⟨t - job.order,by omega⟩
      rw [word_succ (by omega), ← carries.residual i (by omega)]
      refine congrArg (_ + ·) (job.looks _ _ ?_)
      intro j below
      exact ih _ (by omega) (by omega)

end

section
variable {call : Call} {signal : Nat → Word}

theorem Call.base_index (t : Nat) : addr call.base t = index call.data (t - call.order) := by
  have split : 4 * ((t : Int) - call.order) = ↑(4 * t) + -↑(4 * call.order) := by
    push_cast
    ring
  rw [index, split, BitVec.ofInt_add, BitVec.ofInt_neg, BitVec.ofInt_natCast, BitVec.ofInt_natCast,
    addr, Call.base, below]
  ring

structure Call.Laid (call : Call) (warmup residual : Nat → Word) : Prop where
  warm : ∀ t < call.order, call.state.mem (index call.data (t - call.order)) = warmup t
  rest : ∀ i < call.len, call.state.mem (index (call.state.reg .r0) i) = residual i

theorem Call.Laid.carries {residual : Nat → Word} (laid : call.Laid signal residual)
    {predict : (Nat → Word) → Word} (looks : Looks call.order predict)
    (predicted : ∀ i < call.len, residual i +
      (predict fun j => signal (i + (call.order - 1 - j))) = signal (call.order + i)) :
    (call.job predict looks).Carries signal where
  warm := by
    intro t below
    have inside : t < call.order := below
    refine Eq.trans (Call.saved_frame ?_) ((congrArg _ (Call.base_index t)).trans (laid.warm t below))
    intro k inside
    exact call.samples.addr_ne call.stack call.samples_stack (by omega) (by omega)
  residual := by
    intro i inside
    have kept : call.saved (addr (call.state.reg .r0) i) = residual i := by
      rw [Call.saved_residual inside, ← index_ofNat]
      exact laid.rest i inside
    exact (congrArg (· + _) kept).trans (predicted i inside)

theorem Call.finished_signal {L : Type} {predict : (Nat → Word) → Word}
    {looks : Looks call.order predict} {c : Config L} (done : (call.job predict looks).Finished c)
    (carries : (call.job predict looks).Carries signal) :
    ∃ t, c = .returned (call.state.reg .r14) t ∧
      ∀ k < call.order + call.len, t.mem (index call.data (k - call.order)) = signal k := by
  obtain ⟨t,rfl,mem⟩ := done
  refine ⟨t,congrArg (Config.returned · t) Call.saved_link,?_⟩
  intro k inside
  rw [← Call.base_index, mem, ← carries.word k inside]
  exact restore_data call.small inside

end

def Signed (bits : Nat) (x : Int) : Prop := -2 ^ (bits - 1) ≤ x ∧ x < 2 ^ (bits - 1)

theorem Signed.ofInt {bits : Nat} {x : Int} (signed : Signed bits x) (some_bit : 0 < bits) :
    (BitVec.ofInt bits x).toInt = x :=
  BitVec.toInt_ofInt_eq_self some_bit signed.1 signed.2

theorem Signed.wider {bits more : Nat} {x : Int} (signed : Signed bits x) (le : bits ≤ more) :
    Signed more x := by
  have power : (2 : Int) ^ (bits - 1) ≤ 2 ^ (more - 1) :=
    pow_le_pow_right₀ (by decide) (by omega)
  exact ⟨(neg_le_neg power).trans signed.1,signed.2.trans_le power⟩

theorem Signed.abs {bits : Nat} {x : Int} (signed : Signed bits x) : |x| ≤ 2 ^ (bits - 1) :=
  abs_le.mpr ⟨signed.1,signed.2.le⟩

theorem ofInt_sum (bits order : Nat) (f : Nat → Int) :
    BitVec.ofInt bits (∑ j ∈ Finset.range order, f j) =
      ∑ j ∈ Finset.range order, BitVec.ofInt bits (f j) := by
  induction order with
  | zero => simp
  | succ order ih => rw [Finset.sum_range_succ, Finset.sum_range_succ, BitVec.ofInt_add, ih]

theorem ofInt_sub {bits : Nat} (x y : Int) :
    BitVec.ofInt bits (x - y) = BitVec.ofInt bits x - BitVec.ofInt bits y := by
  rw [Int.sub_eq_add_neg, BitVec.ofInt_add, BitVec.ofInt_neg, BitVec.sub_eq_add_neg]

end RestoreSignal

namespace FixedAsm
open Arm RestoreSignal

/-- What a fixed predictor misses of a signal is its difference of that order. -/
theorem fixedPrediction_difference {order : Nat} (small : order ≤ 4) (signal : Nat → Int) (i : Nat) :
    BitVec.ofInt 32 ((fwdDiff 1)^[order] signal i) +
      (fixedPrediction order fun j => BitVec.ofInt 32 (signal (i + (order - 1 - j)))) =
        BitVec.ofInt 32 (signal (order + i)) := by
  interval_cases order <;>
    simp only [Function.iterate_succ_apply, Function.iterate_zero_apply, fwdDiff, fixedPrediction,
      ofInt_sub, Nat.add_assoc, Nat.reduceAdd, Nat.reduceSub, Nat.add_zero, Nat.zero_add] <;>
    ring_nf

/-- The fixed restorer gives back every signal from its first samples and its differences. -/
theorem fixedRestoreSignalAsmArm_lossless (call : FixedCall) (signal : Nat → Int)
    (small : ∀ k < call.order + call.len, Signed 32 (signal k))
    (laid : call.Laid (fun t => BitVec.ofInt 32 (signal t))
      fun i => BitVec.ofInt 32 ((fwdDiff 1)^[call.order] signal i)) : ∃ t,
    Steps fixedProgram (.running (Program.after .fixedRestoreSignalAsmArm fixedProgram) call.state)
      (.returned (call.state.reg .r14) t) ∧
    ∀ k < call.order + call.len, (t.mem (index call.data (k - call.order))).toInt = signal k := by
  obtain ⟨c,steps,done⟩ := call.finishes
  have carries := laid.carries call.fixedJob.looks fun i _ =>
    fixedPrediction_difference call.order_small signal i
  obtain ⟨t,rfl,left⟩ := call.finished_signal done carries
  refine ⟨t,steps,?_⟩
  intro k inside
  rw [left k inside]
  exact (small k inside).ofInt (by decide)

theorem fixedRestoreSignalAsmArm_differences : ∃ t,
    Steps fixedProgram
      (.running (Program.after .fixedRestoreSignalAsmArm fixedProgram) twoSamples.state)
      (.returned 0#32 t) ∧ (t.mem (index twoSamples.data (3 - 2))).toInt = 24 := by
  have small : ∀ k < 2 + 2, Signed 32 ([4, 7, 15, 24].getD k 0) := by
    unfold Signed
    decide
  have laid : twoSamples.Laid (fun t => BitVec.ofInt 32 ([4, 7, 15, 24].getD t 0))
      fun i => BitVec.ofInt 32 ((fwdDiff 1)^[2] (fun t => ([4, 7, 15, 24] : List Int).getD t 0) i) :=
    ⟨by decide,by decide⟩
  obtain ⟨t,steps,left⟩ := fixedRestoreSignalAsmArm_lossless twoSamples _ small laid
  exact ⟨t,steps,left 3 (by decide)⟩

end FixedAsm

namespace LpcAsm
open Arm RestoreSignal LpcWide

def linearPrediction (coeff : Nat → Int) (order shift : Nat) (h : Nat → Int) : Int :=
  (∑ j ∈ Finset.range order, coeff j * h j) >>> shift

theorem sum_sized {order bps precision : Nat} {coeff h : Nat → Int} {terms : Finset Nat}
    (inside : terms ⊆ Finset.range order) (coeffs : ∀ j < order, Signed precision (coeff j))
    (samples : ∀ j < order, Signed bps (h j)) :
    |∑ j ∈ terms, coeff j * h j| ≤ order * (2 ^ (precision - 1) * 2 ^ (bps - 1)) := by
  have few : (terms.card : Int) ≤ order := by
    have count := Finset.card_le_card inside
    rw [Finset.card_range] at count
    exact_mod_cast count
  calc |∑ j ∈ terms, coeff j * h j|
      ≤ ∑ j ∈ terms, |coeff j * h j| := Finset.abs_sum_le_sum_abs _ _
    _ ≤ ∑ _j ∈ terms, (2 ^ (precision - 1) * 2 ^ (bps - 1) : Int) := by
      refine Finset.sum_le_sum fun j member => ?_
      have below := Finset.mem_range.mp (inside member)
      rw [abs_mul]
      exact mul_le_mul (coeffs j below).abs (samples j below).abs (abs_nonneg _) (by positivity)
    _ = terms.card * (2 ^ (precision - 1) * 2 ^ (bps - 1)) := by
      rw [Finset.sum_const, nsmul_eq_mul]
    _ ≤ order * (2 ^ (precision - 1) * 2 ^ (bps - 1)) :=
      mul_le_mul_of_nonneg_right few (by positivity)

/-- Samples of `bps` bits that are coded with coefficients of `precision` bits. -/
structure Coded (call : LpcCall) (bps precision : Nat) (signal : Nat → Int) : Prop where
  some_bits : 1 ≤ bps
  stored : bps ≤ 32
  some_precision : 1 ≤ precision
  header : precision ≤ 15
  samples : ∀ k < call.order + call.len, Signed bps (signal k)
  coeffs : ∀ j < call.order, Signed precision (call.q j).toInt
  laid : call.Laid (fun t => BitVec.ofInt 32 (signal t)) fun i =>
    BitVec.ofInt 32 (signal (call.order + i) - linearPrediction (fun j => (call.q j).toInt)
      call.order call.shift fun j => signal (i + (call.order - 1 - j)))

section
variable {q : Nat → Word} {order shift : Nat} {h : Nat → Int}

theorem shift_ofInt {bits : Nat} {x : Int} (some_bit : 0 < bits) (signed : Signed bits x) :
    (BitVec.ofInt bits x).sshiftRight shift = BitVec.ofInt bits (x >>> shift) := by
  rw [← BitVec.ofInt_toInt (x := (BitVec.ofInt bits x).sshiftRight shift),
    BitVec.toInt_sshiftRight, signed.ofInt some_bit]

theorem prediction_exact (sum : Signed 32 (∑ j ∈ Finset.range order, (q j).toInt * h j)) :
    (prediction q order shift fun j => BitVec.ofInt 32 (h j)) =
      BitVec.ofInt 32 (linearPrediction (fun j => (q j).toInt) order shift h) := by
  have words : ∑ j ∈ Finset.range order, q j * BitVec.ofInt 32 (h j) =
      BitVec.ofInt 32 (∑ j ∈ Finset.range order, (q j).toInt * h j) := by
    rw [ofInt_sum]
    refine Finset.sum_congr rfl fun j _ => ?_
    rw [BitVec.ofInt_mul, BitVec.ofInt_toInt]
  rw [prediction, words, shift_ofInt (by decide) sum]
  rfl

theorem narrow_ofInt (x : Int) : (BitVec.ofInt 64 x).setWidth 32 = BitVec.ofInt 32 x := by
  apply BitVec.eq_of_toNat_eq
  rw [BitVec.toNat_setWidth, BitVec.toNat_ofInt, BitVec.toNat_ofInt]
  omega

theorem composed_exact (small : shift ≤ 32) (samples : ∀ j < order, Signed 32 (h j))
    (sum : Signed 64 (∑ j ∈ Finset.range order, (q j).toInt * h j))
    (fits : Signed 32 (linearPrediction (fun j => (q j).toInt) order shift h)) :
    (composed q order shift fun j => BitVec.ofInt 32 (h j)) =
      BitVec.ofInt 32 (linearPrediction (fun j => (q j).toInt) order shift h) := by
  have words : (prediction64 q order fun j => BitVec.ofInt 32 (h j)) =
      BitVec.ofInt 64 (∑ j ∈ Finset.range order, (q j).toInt * h j) := by
    rw [ofInt_sum]
    refine Finset.sum_congr rfl fun j member => ?_
    rw [BitVec.ofInt_mul, BitVec.signExtend, BitVec.signExtend,
      (samples j (Finset.mem_range.mp member)).ofInt (by decide)]
  have shifted : (BitVec.ofInt 64 (∑ j ∈ Finset.range order, (q j).toInt * h j)).sshiftRight shift =
      BitVec.ofInt 64 ((∑ j ∈ Finset.range order, (q j).toInt * h j) >>> shift) :=
    shift_ofInt (by decide) sum
  have inside : Fits ((BitVec.ofInt 64 (∑ j ∈ Finset.range order, (q j).toInt * h j)).sshiftRight
      shift) := by
    rw [Fits, BitVec.toInt_sshiftRight, sum.ofInt (by decide)]
    exact fits
  rw [composed, words, composedShift_fits small inside, shifted, narrow_ofInt]
  rfl

end

section
variable {call : LpcCall} {bps precision : Nat} {signal : Nat → Int}

theorem Coded.past (coded : Coded call bps precision signal) {i : Nat} (inside : i < call.len) :
    ∀ j < call.order, Signed bps (signal (i + (call.order - 1 - j))) :=
  fun _ _ => coded.samples _ (by omega)

/-- What the decoder compares with 32 bounds the sums. -/
theorem Coded.sum_narrow (coded : Coded call bps precision signal) {log : Nat}
    (power : call.order < 2 ^ (log + 1)) (narrow : bps + precision + log ≤ 32) {i : Nat}
    (inside : i < call.len) {terms : Finset Nat} (some_of : terms ⊆ Finset.range call.order) :
    Signed 32 (∑ j ∈ terms, (call.q j).toInt * signal (i + (call.order - 1 - j))) := by
  have size := sum_sized some_of coded.coeffs (coded.past inside)
  have below : (call.order : Int) * (2 ^ (precision - 1) * 2 ^ (bps - 1)) < 2 ^ 31 := by
    calc (call.order : Int) * (2 ^ (precision - 1) * 2 ^ (bps - 1))
        < 2 ^ (log + 1) * (2 ^ (precision - 1) * 2 ^ (bps - 1)) :=
          mul_lt_mul_of_pos_right (by exact_mod_cast power) (by positivity)
      _ = 2 ^ (log + 1 + (precision - 1 + (bps - 1))) := by rw [← pow_add, ← pow_add]
      _ ≤ 2 ^ 31 := by
        have := coded.some_bits
        have := coded.some_precision
        exact pow_le_pow_right₀ (by decide) (by omega)
  have := abs_le.mp size
  exact ⟨by omega,by omega⟩

theorem Coded.sum_wide (coded : Coded call bps precision signal) {i : Nat}
    (inside : i < call.len) : Signed 64 (∑ j ∈ Finset.range call.order,
      (call.q j).toInt * signal (i + (call.order - 1 - j))) := by
  have size := sum_sized subset_rfl coded.coeffs (coded.past inside)
  have below : (call.order : Int) * (2 ^ (precision - 1) * 2 ^ (bps - 1)) ≤ 2 ^ 50 := by
    calc (call.order : Int) * (2 ^ (precision - 1) * 2 ^ (bps - 1))
        ≤ 2 ^ 5 * (2 ^ (precision - 1) * 2 ^ (bps - 1)) :=
          mul_le_mul_of_nonneg_right (by exact_mod_cast call.order_small) (by positivity)
      _ = 2 ^ (5 + (precision - 1 + (bps - 1))) := by rw [← pow_add, ← pow_add]
      _ ≤ 2 ^ 50 := by
        have := coded.stored
        have := coded.header
        exact pow_le_pow_right₀ (by decide) (by omega)
  have := abs_le.mp size
  exact ⟨by omega,by omega⟩

theorem residual_added (x y : Int) :
    BitVec.ofInt 32 (x - y) + BitVec.ofInt 32 y = BitVec.ofInt 32 x := by
  rw [← BitVec.ofInt_add, Int.sub_add_cancel]

theorem Coded.returned (coded : Coded call bps precision signal) {L : Type}
    {predict : (Nat → Word) → Word} {looks : Looks call.order predict} {c : Config L}
    (done : (call.job predict looks).Finished c)
    (exactly : ∀ i < call.len,
      (predict fun j => BitVec.ofInt 32 (signal (i + (call.order - 1 - j)))) =
        BitVec.ofInt 32 (linearPrediction (fun j => (call.q j).toInt) call.order call.shift fun j =>
          signal (i + (call.order - 1 - j)))) :
    ∃ t, c = .returned (call.state.reg .r14) t ∧
      ∀ k < call.order + call.len, (t.mem (index call.data (k - call.order))).toInt = signal k := by
  have carries := coded.laid.carries looks fun i inside => by
    rw [exactly i inside]
    exact residual_added _ _
  obtain ⟨t,same,left⟩ := call.finished_signal done carries
  refine ⟨t,same,?_⟩
  intro k inside
  rw [left k inside]
  exact ((coded.samples k inside).wider coded.stored).ofInt (by decide)

end

/-- The decoder's choice between the two restorers, and a state that the chosen one returns in. -/
def Restores (ilog2 : Nat → Nat) (bps precision : Nat) (call : LpcCall) (t : State) : Prop :=
  if bps + precision + ilog2 call.order ≤ 32 then
    Steps program (.running (Program.after .lpcRestoreSignalAsmArm program) call.state)
      (.returned (call.state.reg .r14) t)
  else
    Steps wideProgram
      (.running (Program.after .lpcRestoreSignalAsmArmWide wideProgram) call.state)
      (.returned (call.state.reg .r14) t)

/-- The decoder gets back every sample, through whichever restorer it takes. The 32-bit one is
    taken only where no sum of some of the terms can leave its word; the other needs predictions of
    32 bits. -/
theorem lpcSubframe_lossless {ilog2 : Nat → Nat} (log : ∀ v, 0 < v → v < 2 ^ (ilog2 v + 1))
    {call : LpcCall} {bps precision : Nat} {signal : Nat → Int}
    (coded : Coded call bps precision signal)
    (fits : 32 < bps + precision + ilog2 call.order → ∀ i < call.len,
      Signed 32 (linearPrediction (fun j => (call.q j).toInt) call.order call.shift fun j =>
        signal (i + (call.order - 1 - j)))) :
    (∃ t, Restores ilog2 bps precision call t ∧
      ∀ k < call.order + call.len, (t.mem (index call.data (k - call.order))).toInt = signal k) ∧
    (bps + precision + ilog2 call.order ≤ 32 → ∀ i < call.len, ∀ terms ⊆ Finset.range call.order,
      Signed 32 (∑ j ∈ terms, (call.q j).toInt * signal (i + (call.order - 1 - j)))) := by
  have power := log _ call.order_positive
  refine ⟨?_,fun narrow i inside terms some_of => coded.sum_narrow power narrow inside some_of⟩
  by_cases narrow : bps + precision + ilog2 call.order ≤ 32
  · obtain ⟨c,steps,done⟩ := call.finishes
    obtain ⟨t,rfl,left⟩ := coded.returned done fun i inside =>
      prediction_exact (coded.sum_narrow power narrow inside subset_rfl)
    exact ⟨t,by rwa [Restores, if_pos narrow],left⟩
  · obtain ⟨c,steps,done⟩ := LpcWide.finishes call
    have small := call.shift_small
    obtain ⟨t,rfl,left⟩ := coded.returned done fun i inside =>
      composed_exact (by omega) (fun j below => (coded.past inside j below).wider coded.stored)
        (coded.sum_wide inside) (fits (by omega) i inside)
    exact ⟨t,by rwa [Restores, if_neg narrow],left⟩

def narrow : LpcCall :=
  callAt fiveSamples
    (arrays [100#32, BitVec.ofInt 32 (-200)]
      [650#32, 24450#32, BitVec.ofInt 32 (-37357), 12523#32, BitVec.ofInt 32 (-20)]
      [3#32, BitVec.ofInt 32 (-1)])

theorem narrow_coded : Coded narrow 16 3 ([100, -200, 300, 25000, -7, 12, 1].getD · 0) where
  some_bits := by decide
  stored := by decide
  some_precision := by decide
  header := by decide
  samples := by
    unfold Signed
    decide
  coeffs := by
    unfold Signed
    decide
  laid := ⟨by decide,by decide⟩

def orderNineSignal (k : Nat) : Int :=
  if k < 9 then 0x10000000 + 1000 * k else if k = 9 then 0x10000005 else 0x0ffffff0

theorem orderNine_coded : Coded orderNine 32 14 orderNineSignal where
  some_bits := by decide
  stored := by decide
  some_precision := by decide
  header := by decide
  samples := by
    unfold Signed
    decide
  coeffs := by
    unfold Signed
    decide
  laid := ⟨by decide,by decide⟩

theorem lpcSubframe_both : (∃ t, Restores Nat.log2 16 3 narrow t ∧
      (t.mem (index narrow.data (6 - 2))).toInt = 1) ∧
    ∃ t, Restores Nat.log2 32 14 orderNine t ∧
      (t.mem (index orderNine.data (10 - 9))).toInt = 0x0ffffff0 := by
  have log : ∀ v, 0 < v → v < 2 ^ (Nat.log2 v + 1) := fun v _ => Nat.lt_log2_self
  constructor
  · obtain ⟨⟨t,restores,left⟩,-⟩ :=
      lpcSubframe_lossless log narrow_coded fun wide => absurd wide (by decide)
    exact ⟨t,restores,left 6 (by decide)⟩
  · obtain ⟨⟨t,restores,left⟩,-⟩ := lpcSubframe_lossless log orderNine_coded fun _ => by
      unfold Signed
      decide
    exact ⟨t,restores,left 10 (by decide)⟩

end LpcAsm
