import SqueezeOS.Arm.Duff
import SqueezeOS.Flac.LpcCall

/- FLAC__lpc_restore_signal_asm_arm_wide: the Duff's device again, with a 64-bit sum
   in r12 and r7 and its arithmetic shift composed from 32-bit ones. -/
namespace LpcWide
open Arm RestoreSignal LpcAsm

inductive WideLabel where
  | lpcRestoreSignalAsmArmWide | wideDuffsDeviceOuter | wideDuffsCase7 | wideDuffsCase5
  | wideDuffsCase3 | wideDuffsCase1 | wideDuffsEnd | wideDuffsCase0 | wideDuffsCase6
  | wideDuffsCase4 | wideDuffsCase2
  deriving DecidableEq, Repr

def finishLoop : List (Instr WideLabel) :=
  [.mov .r7 (.lsrBy .r7 .r2),
   .rsb .r10 .r2 (.imm 32),
   .mov .r11 (.lslBy .r12 .r10),
   .orr .r7 .r7 (.reg .r11),
   .ands .r6 .r12 (.imm 0x80000000),
   .when .ne (.orr .r7 .r7 (.reg .r6)),
   .ldr .r10 (.post .r0 4),
   .add .r12 .r10 (.reg .r7),
   .str .r12 (.post .r8 4),
   .subs .r1 .r1 (.imm 1),
   .when .ne (.b .wideDuffsDeviceOuter)]

def lpcRestoreSignalAsmArmWide : List (Instr WideLabel) :=
  [.stm .db .r13 true pushed,
   .add .r5 .r2 (.asl .r3 2),
   .ldr .r2 (.at .r13 40),
   .ldr .r8 (.at .r13 44)]

def wideDuffsDeviceOuter : List (Instr WideLabel) :=
  [.sub .r8 .r8 (.asl .r3 2),
   .add .r14 .r3 (.imm 7),
   .mov .r14 (.lsr .r14 3),
   .mov .r9 (.reg .r5),
   .mov .r7 (.imm 0),
   .mov .r12 (.imm 0),
   .and .r4 .r3 (.imm 7),
   .cmp .r4 (.imm 7),
   .when .ls (.ldrPc .r4 [.wideDuffsCase0, .wideDuffsCase1, .wideDuffsCase2, .wideDuffsCase3,
     .wideDuffsCase4, .wideDuffsCase5, .wideDuffsCase6, .wideDuffsCase7]),
   .b .wideDuffsEnd]

def wideDuffsCase7 : List (Instr WideLabel) :=
  [.ldm .ia .r8 true [.r4, .r6],
   .ldm .db .r9 true [.r10, .r11],
   .smlal .r7 .r12 .r4 .r11, .smlal .r7 .r12 .r6 .r10]

def wideDuffsCase5 : List (Instr WideLabel) :=
  [.ldm .ia .r8 true [.r4, .r6],
   .ldm .db .r9 true [.r10, .r11],
   .smlal .r7 .r12 .r4 .r11, .smlal .r7 .r12 .r6 .r10]

def wideDuffsCase3 : List (Instr WideLabel) :=
  [.ldm .ia .r8 true [.r4, .r6],
   .ldm .db .r9 true [.r10, .r11],
   .smlal .r7 .r12 .r4 .r11, .smlal .r7 .r12 .r6 .r10]

def wideDuffsCase1 : List (Instr WideLabel) :=
  [.ldr .r10 (.pre .r9 (-4)),
   .ldr .r11 (.post .r8 4),
   .smlal .r7 .r12 .r10 .r11,
   .subs .r14 .r14 (.imm 1),
   .when .ne (.b .wideDuffsCase0)]

def wideDuffsEnd : List (Instr WideLabel) :=
  finishLoop ++ [.ldmfdPc .r13 popped]

def wideDuffsCase0 : List (Instr WideLabel) :=
  [.ldm .ia .r8 true [.r4, .r6],
   .ldm .db .r9 true [.r10, .r11],
   .smlal .r7 .r12 .r4 .r11, .smlal .r7 .r12 .r6 .r10]

def wideDuffsCase6 : List (Instr WideLabel) :=
  [.ldm .ia .r8 true [.r4, .r6],
   .ldm .db .r9 true [.r10, .r11],
   .smlal .r7 .r12 .r4 .r11, .smlal .r7 .r12 .r6 .r10]

def wideDuffsCase4 : List (Instr WideLabel) :=
  [.ldm .ia .r8 true [.r4, .r6],
   .ldm .db .r9 true [.r10, .r11],
   .smlal .r7 .r12 .r4 .r11, .smlal .r7 .r12 .r6 .r10]

def wideDuffsCase2 : List (Instr WideLabel) :=
  [.ldm .ia .r8 true [.r4, .r6],
   .ldm .db .r9 true [.r10, .r11],
   .smlal .r7 .r12 .r4 .r11, .smlal .r7 .r12 .r6 .r10,
   .subs .r14 .r14 (.imm 1),
   .when .ne (.b .wideDuffsCase0)] ++
  finishLoop ++ [.ldmfdPc .r13 popped]

def wideProgram : Program WideLabel :=
  [(.lpcRestoreSignalAsmArmWide, lpcRestoreSignalAsmArmWide),
   (.wideDuffsDeviceOuter, wideDuffsDeviceOuter),
   (.wideDuffsCase7, wideDuffsCase7),
   (.wideDuffsCase5, wideDuffsCase5),
   (.wideDuffsCase3, wideDuffsCase3),
   (.wideDuffsCase1, wideDuffsCase1),
   (.wideDuffsEnd, wideDuffsEnd),
   (.wideDuffsCase0, wideDuffsCase0),
   (.wideDuffsCase6, wideDuffsCase6),
   (.wideDuffsCase4, wideDuffsCase4),
   (.wideDuffsCase2, wideDuffsCase2)]

def prediction64 (coeff : Nat → Word) (order : Nat) (h : Nat → Word) : BitVec 64 :=
  ∑ j ∈ Finset.range order, (coeff j).signExtend 64 * (h j).signExtend 64

def widePrediction (coeff : Nat → Word) (order shift : Nat) (h : Nat → Word) : Word :=
  ((prediction64 coeff order h).sshiftRight shift).setWidth 32

def Fits (w : BitVec 64) : Prop := -2 ^ 31 ≤ w.toInt ∧ w.toInt < 2 ^ 31

/-- The shift as finish_loop composes it. -/
def composedShift (v : BitVec 64) (shift : Nat) : Word :=
  let hi := v.extractLsb' 32 32
  let both := v.extractLsb' 0 32 >>> shift ||| hi <<< (32 - shift)
  if hi &&& 0x80000000#32 == 0#32 then both else both ||| (hi &&& 0x80000000#32)

def composed (coeff : Nat → Word) (order shift : Nat) (h : Nat → Word) : Word :=
  composedShift (prediction64 coeff order h) shift

theorem both_words (v : BitVec 64) {shift : Nat} (small : shift ≤ 32) :
    v.extractLsb' 0 32 >>> shift ||| v.extractLsb' 32 32 <<< (32 - shift) =
      (v.sshiftRight shift).setWidth 32 := by
  apply BitVec.eq_of_getLsbD_eq
  intro i hi
  have inside : shift + i < 64 := by omega
  have inside' : ¬ 64 ≤ i := by omega
  simp only [BitVec.getLsbD_or, BitVec.getLsbD_ushiftRight, BitVec.getLsbD_shiftLeft,
    BitVec.getLsbD_extractLsb', BitVec.getLsbD_setWidth, BitVec.getLsbD_sshiftRight, hi]
  by_cases low : shift + i < 32
  · have here : i < 32 - shift := by omega
    simp [low, here, inside, inside']
  · have here : ¬ i < 32 - shift := by omega
    have same : 32 + (i - (32 - shift)) = shift + i := by omega
    have high : i - (32 - shift) < 32 := by omega
    simp [low, here, same, high, inside, inside']

theorem sign_kept {w : BitVec 64} (fits : Fits w) : (w.setWidth 32).msb = w.msb := by
  unfold Fits at fits
  have value := BitVec.toInt_eq_toNat_cond w
  have bound := w.isLt
  rw [BitVec.msb_eq_decide, BitVec.msb_eq_decide, decide_eq_decide, BitVec.toNat_setWidth]
  split at value <;> omega

theorem sign_bit (w : Word) : w &&& 0x80000000#32 = if w.msb then 0x80000000#32 else 0#32 := by
  apply BitVec.eq_of_getLsbD_eq
  intro i hi
  rw [BitVec.getLsbD_and, show (0x80000000#32) = BitVec.twoPow 32 31 from rfl,
    BitVec.getLsbD_twoPow]
  by_cases top : 31 = i
  · subst top
    cases h : w.msb <;> simp [BitVec.msb_eq_getLsbD_last] at h ⊢ <;> simp [h]
  · cases h : w.msb <;> simp [top]

theorem or_sign_bit {w : Word} (negative : w.msb = true) : w ||| 0x80000000#32 = w := by
  have absorbed : w ||| w &&& 0x80000000#32 = w := by
    apply BitVec.eq_of_getLsbD_eq
    intro i _
    simp
    intro one _
    exact one
  rw [sign_bit, if_pos negative] at absorbed
  exact absorbed

/-- The sign bit that finish_loop puts back is there already if the result fits. -/
theorem composedShift_fits {v : BitVec 64} {shift : Nat} (small : shift ≤ 32)
    (fits : Fits (v.sshiftRight shift)) :
    composedShift v shift = (v.sshiftRight shift).setWidth 32 := by
  have sign : (v.extractLsb' 32 32).msb = ((v.sshiftRight shift).setWidth 32).msb := by
    rw [sign_kept fits, BitVec.msb_sshiftRight]
    simp [BitVec.msb_eq_getLsbD_last]
  unfold composedShift
  simp only [both_words v small, sign_bit, sign]
  cases negative : ((v.sshiftRight shift).setWidth 32).msb
  · rfl
  · exact or_sign_bit negative

def wideDuffs : Duff wideProgram where
  even
    | 4 => .wideDuffsCase0
    | 3 => .wideDuffsCase6
    | 2 => .wideDuffsCase4
    | _ => .wideDuffsCase2
  odd
    | 0 => .wideDuffsCase1
    | 1 => .wideDuffsCase3
    | 2 => .wideDuffsCase5
    | _ => .wideDuffsCase7
  pair := wideDuffsCase7
  single := wideDuffsCase1.take 3
  counter := .r14
  evenEnd := finishLoop ++ [.ldmfdPc .r13 popped]
  oddEnd := Program.after .wideDuffsEnd wideProgram
  even_code := by
    intro k low high
    interval_cases k <;> rfl
  odd_code := by
    intro k high
    interval_cases k <;> rfl

structure WideJob extends Job where
  coeff : Word
  shift : Nat
  shift_small : shift ≤ 15
  coeff_apart : ApartFrom base order len coeff order
  predicts : predict = composed (fun j => mem (addr coeff j)) order shift

namespace WideJob
variable (job : WideJob)

def q (j : Nat) : Word := job.mem (addr job.coeff j)

def partialSum (i m : Nat) : BitVec 64 :=
  ∑ t ∈ Finset.range m,
    (job.word (i + t)).signExtend 64 * (job.q (job.order - 1 - t)).signExtend 64

structure Outer (i : Nat) (s : State) : Prop extends job.Turn i s where
  r2 : s.reg .r2 = BitVec.ofNat 32 job.shift
  r3 : s.reg .r3 = BitVec.ofNat 32 job.order
  r5 : s.reg .r5 = addr job.coeff job.order

structure Acc (i m n : Nat) (s : State) : Prop extends job.Outer i s where
  r7 : s.reg .r7 = (job.partialSum i m).extractLsb' 0 32
  r8 : s.reg .r8 = addr job.base (i + m)
  r9 : s.reg .r9 = addr job.coeff (job.order - m)
  r12 : s.reg .r12 = (job.partialSum i m).extractLsb' 32 32
  r14 : s.reg .r14 = BitVec.ofNat 32 n
  rounds : n < 2 ^ 32

variable {job}

theorem partialSum_succ (i m : Nat) : job.partialSum i (m + 1) = job.partialSum i m +
    (job.word (i + m)).signExtend 64 * (job.q (job.order - 1 - m)).signExtend 64 :=
  Finset.sum_range_succ _ _

theorem partialSum_order (i : Nat) : job.partialSum i job.order =
    prediction64 job.q job.order fun j => job.word (i + (job.order - 1 - j)) :=
  sum_oldest_first job.order (fun t => (job.word (i + t)).signExtend 64)
    fun j => (job.q j).signExtend 64

theorem Outer.carry {i : Nat} {s t : State} (outer : job.Outer i s)
    (r0 : t.reg .r0 = s.reg .r0) (r1 : t.reg .r1 = s.reg .r1) (r2 : t.reg .r2 = s.reg .r2)
    (r3 : t.reg .r3 = s.reg .r3) (r5 : t.reg .r5 = s.reg .r5) (r13 : t.reg .r13 = s.reg .r13)
    (mem : t.mem = s.mem) : job.Outer i t :=
  ⟨⟨r0.trans outer.r0,r1.trans outer.r1,r13.trans outer.r13,mem.trans outer.mem⟩,
    r2.trans outer.r2,r3.trans outer.r3,r5.trans outer.r5⟩

theorem acc_pair {i m n : Nat} {s : State} (hi : i < job.len) (room : m + 2 ≤ job.order)
    (acc : job.Acc i m n s) :
    ∃ t, execs wideDuffsCase7 s = some t ∧ job.Acc i (m + 2) n t := by
  obtain ⟨outer,r7,r8,r9,r12,r14,rounds⟩ := acc
  have older := outer.past (k := m) (Nat.le_of_lt hi) (by omega)
  have newer := outer.past (k := m + 1) (Nat.le_of_lt hi) (by omega)
  have coeff : ∀ k < job.order, s.mem (addr job.coeff k) = job.q k := by
    intro k hk
    exact outer.other (Nat.le_of_lt hi) job.coeff_apart hk
  have low := coeff (job.order - m - 2) (by omega)
  have high := coeff (job.order - m - 2 + 1) (by omega)
  have down := below_addr job.coeff (m := job.order - m) (n := 2) (by omega)
  have back : job.order - 1 - m = job.order - m - 2 + 1 := by omega
  have back' : job.order - 1 - (m + 1) = job.order - m - 2 := by omega
  have sum : job.partialSum i (m + 2) = job.partialSum i m +
      (job.word (i + m)).signExtend 64 * (job.q (job.order - m - 2 + 1)).signExtend 64 +
      (job.word (i + (m + 1))).signExtend 64 * (job.q (job.order - m - 2)).signExtend 64 := by
    rw [show m + 2 = m + 1 + 1 from rfl, partialSum_succ, partialSum_succ, back, back']
  refine ⟨_,rfl,outer.carry ?_ ?_ ?_ ?_ ?_ ?_ ?_,?_,?_,?_,?_,?_,rounds⟩
  all_goals simp [r7, r8, r9, r12, r14, older, newer, low, high, down, Nat.add_assoc, wide_extract,
    sum]
  rw [Nat.sub_sub]

theorem acc_single {i m n : Nat} {s : State} (hi : i < job.len) (room : m + 1 ≤ job.order)
    (acc : job.Acc i m n s) :
    ∃ t, execs (wideDuffsCase1.take 3) s = some t ∧ job.Acc i (m + 1) n t := by
  obtain ⟨outer,r7,r8,r9,r12,r14,rounds⟩ := acc
  have older := outer.past (k := m) (Nat.le_of_lt hi) (by omega)
  have low : s.mem (addr job.coeff (job.order - m - 1)) = job.q (job.order - m - 1) :=
    outer.other (Nat.le_of_lt hi) job.coeff_apart (by omega)
  have down := addr_sub job.coeff (m := job.order - m) (n := 4) rfl (by omega)
  have back : job.order - 1 - m = job.order - m - 1 := by omega
  have sum : job.partialSum i (m + 1) = job.partialSum i m +
      (job.q (job.order - m - 1)).signExtend 64 * (job.word (i + m)).signExtend 64 := by
    rw [partialSum_succ, back, mul_comm]
  refine ⟨_,rfl,outer.carry ?_ ?_ ?_ ?_ ?_ ?_ ?_,?_,?_,?_,?_,?_,rounds⟩
  all_goals simp [r7, r8, r9, r12, r14, older, low, down, Nat.add_assoc, wide_extract, sum]
  rw [Nat.sub_sub]

theorem acc_count {i m n : Nat} {s : State} (acc : job.Acc i m (n + 1) s) :
    ∃ t, exec (L := WideLabel) (.subs .r14 .r14 (.imm 1)) s = .next t ∧ job.Acc i m n t ∧
      t.z = decide (n = 0) := by
  obtain ⟨outer,r7,r8,r9,r12,r14,rounds⟩ := acc
  have less : BitVec.ofNat 32 (n + 1) - 1#32 = BitVec.ofNat 32 n := count_down (by omega)
  refine ⟨_,rfl,⟨outer.carry ?_ ?_ ?_ ?_ ?_ ?_ ?_,?_,?_,?_,?_,?_,by omega⟩,?_⟩
  all_goals simp only [set_reg, set_mem, reduceCtorEq, ↓reduceIte, Operand.value, r7, r8, r9, r12,
    r14, less]
  exact count_zero (by omega)

theorem acc_adds {i : Nat} (hi : i < job.len) : wideDuffs.Adds job.order (job.Acc i) where
  pair _ _ _ room acc := acc_pair hi room acc
  single _ _ _ room acc := acc_single hi room acc
  count _ _ _ acc := acc_count acc

theorem Outer.enter {i : Nat} {s : State} (outer : job.Outer i s) (small : job.order ≤ 32)
    (r8 : s.reg .r8 = addr job.base (i + job.order)) {l : WideLabel}
    (entry : wideDuffs.table[job.order % 8]? = some l) :
    ∃ t, Steps wideProgram (.running (Program.after .wideDuffsDeviceOuter wideProgram) s)
      (.running (Program.after l wideProgram) t) ∧ job.Acc i 0 ((job.order + 7) / 8) t := by
  have back : addr job.base (i + job.order) - BitVec.ofNat 32 (4 * job.order) =
      addr job.base i := by
    rw [addr_sub job.base (by omega) (by omega)]
    congr 1
    omega
  have mask : BitVec.ofNat 32 job.order &&& 7#32 = BitVec.ofNat 32 (job.order % 8) :=
    low_bits job.order 3
  have rounds := eighths_up (n := job.order) (by omega)
  obtain ⟨t,run,acc,r4,ls⟩ : ∃ t,
      execs ((Program.after .wideDuffsDeviceOuter wideProgram).take 8) s = some t ∧
      job.Acc i 0 ((job.order + 7) / 8) t ∧ t.reg .r4 = BitVec.ofNat 32 (job.order % 8) ∧
      Cond.ls.holds t = decide (BitVec.ofNat 32 (job.order % 8) ≤ 7#32) := by
    refine ⟨_,rfl,⟨outer.carry ?_ ?_ ?_ ?_ ?_ ?_ ?_,?_,?_,?_,?_,?_,by omega⟩,?_,?_⟩
    all_goals simp [outer.r2, outer.r3, outer.r5, r8, words_asl, back, partialSum, rounds]
    · exact mask
    · rw [mask]
      exact cmp_ls s _ _
  exact ⟨t,(steps_take 8 run).trans (Duff.dispatch _ r4 ls entry),acc⟩

theorem Acc.shifted {i : Nat} {s : State} (acc : job.Acc i job.order 0 s) :
    ∃ t, execs (finishLoop.take 6) s = some t ∧ job.Outer i t ∧
      t.reg .r7 = composedShift (job.partialSum i job.order) job.shift ∧
      t.reg .r8 = addr job.base (i + job.order) := by
  obtain ⟨outer,r7,r8,r9,r12,r14,rounds⟩ := acc
  have small := job.shift_small
  have byte : job.shift % 256 = job.shift := by omega
  have left : (32#32 - BitVec.ofNat 32 job.shift).toNat % 256 = 32 - job.shift := by
    rw [show 32#32 = BitVec.ofNat 32 32 from rfl, count_down (by omega), BitVec.toNat_ofNat]
    omega
  obtain ⟨t,run,both,sign,z,kept,pointer⟩ : ∃ t, execs (finishLoop.take 5) s = some t ∧
      t.reg .r7 = (job.partialSum i job.order).extractLsb' 0 32 >>> job.shift |||
        (job.partialSum i job.order).extractLsb' 32 32 <<< (32 - job.shift) ∧
      t.reg .r6 = (job.partialSum i job.order).extractLsb' 32 32 &&& 0x80000000#32 ∧
      t.z = (t.reg .r6 == 0#32) ∧
      job.Outer i t ∧ t.reg .r8 = addr job.base (i + job.order) := by
    refine ⟨_,rfl,?_,?_,?_,outer.carry ?_ ?_ ?_ ?_ ?_ ?_ ?_,?_⟩
    all_goals simp [-BitVec.toNat_sub, r7, r8, r12, outer.r2, byte, left]
  have split : finishLoop.take 6 = finishLoop.take 5 ++ [.when .ne (.orr .r7 .r7 (.reg .r6))] := rfl
  rw [split, execs_append run, composedShift, ← both, ← sign, ← z]
  cases flag : t.z
  · have patch : Cond.ne.holds t = true := by simp [flag]
    refine ⟨_,by rw [execs, exec_when patch, exec]; rfl,kept.carry ?_ ?_ ?_ ?_ ?_ ?_ ?_,?_,?_⟩
    all_goals simp [pointer]
  · have skip : Cond.ne.holds t = false := by simp [flag]
    exact ⟨t,by rw [execs, exec_unless skip]; rfl,kept,by simp,pointer⟩

theorem Outer.store {i : Nat} {s : State} (outer : job.Outer i s) (hi : i < job.len)
    (r7 : s.reg .r7 = composedShift (job.partialSum i job.order) job.shift)
    (r8 : s.reg .r8 = addr job.base (i + job.order)) :
    ∃ t, execs ((finishLoop.drop 6).take 4) s = some t ∧ job.Ended (i + 1) t ∧
      job.Outer (i + 1) t ∧ t.reg .r8 = addr job.base (i + 1 + job.order) := by
  have residual := outer.residual (Nat.le_of_lt hi) hi
  have value : job.mem (addr job.residual i) +
      composedShift (job.partialSum i job.order) job.shift = job.word (i + job.order) := by
    rw [Nat.add_comm i, Job.word_succ hi, job.predicts, partialSum_order]
    rfl
  have ended : ∀ t, execs ((finishLoop.drop 6).take 4) s = some t → job.Ended (i + 1) t := by
    intro t run
    cases Option.some.inj run
    refine outer.toTurn.next hi ?_ ?_ ?_ ?_ ?_
    all_goals simp [r7, r8, residual, outer.r0, value]
  refine ⟨_,rfl,ended _ rfl,⟨(ended _ rfl).toTurn,?_,?_,?_⟩,?_⟩
  all_goals simp [outer.r2, outer.r3, outer.r5, r8]
  congr 1
  omega

theorem Acc.ends {i : Nat} {s : State} {code : List (Instr WideLabel)}
    (acc : job.Acc i job.order 0 s) (hi : i < job.len)
    (ends : code = wideDuffs.evenEnd ∨ code = wideDuffs.oddEnd) :
    ∃ c, Steps wideProgram (.running code s) c ∧ (job.Finished c ∨ i + 1 < job.len ∧
      ∃ t, c = .running (Program.after .wideDuffsDeviceOuter wideProgram) t ∧
        job.Outer (i + 1) t ∧ t.reg .r8 = addr job.base (i + 1 + job.order)) := by
  obtain ⟨rest,same⟩ : ∃ rest, code = finishLoop.take 6 ++ ((finishLoop.drop 6).take 4 ++
      .when .ne (.b .wideDuffsDeviceOuter) :: .ldmfdPc .r13 popped :: rest) := by
    rcases ends with even | odd
    · exact ⟨[],even⟩
    · exact ⟨_,odd⟩
  obtain ⟨t,shift,kept,r7,r8⟩ := acc.shifted
  obtain ⟨u,store,ended,outer,pointer⟩ := kept.store hi r7 r8
  rw [same]
  have steps := (steps_execs (p := wideProgram) _ shift).trans (steps_execs
    (.when .ne (.b .wideDuffsDeviceOuter) :: .ldmfdPc .r13 popped :: rest) store)
  obtain ⟨c,leave,done⟩ | ⟨more,again⟩ :=
    ended.leave_or_repeat (p := wideProgram) .wideDuffsDeviceOuter rest
  · exact ⟨c,steps.trans leave,.inl done⟩
  · exact ⟨_,steps.trans again,.inr ⟨by omega,u,rfl,outer,pointer⟩⟩

theorem Outer.finishes {s : State} (outer : job.Outer 0 s) (small : job.order ≤ 32)
    (positive : 0 < job.order) (nonempty : 0 < job.len)
    (r8 : s.reg .r8 = addr job.base job.order) :
    ∃ c, Steps wideProgram (.running (Program.after .wideDuffsDeviceOuter wideProgram) s) c ∧
      job.Finished c := by
  refine loop_finishes (fun i c => ∃ s,
    c = .running (Program.after .wideDuffsDeviceOuter wideProgram) s ∧
    job.Outer i s ∧ s.reg .r8 = addr job.base (i + job.order)) ?_ 0 _ nonempty
    ⟨s,rfl,outer,by rw [r8, Nat.zero_add]⟩
  rintro i c hi ⟨s,rfl,outer,r8⟩
  have below : job.order % 8 < wideDuffs.table.length := Nat.mod_lt _ (by decide)
  have entry := List.getElem?_eq_getElem below
  obtain ⟨t,enter,start⟩ := outer.enter small r8 entry
  obtain ⟨l,code,u,entry',sums,ends,acc⟩ := (acc_adds hi).device positive start
  cases Option.some.inj (entry.symm.trans entry')
  obtain ⟨c,finish,done | ⟨more,v,rfl,again,r8⟩⟩ := acc.ends hi ends
  · exact ⟨c,(enter.trans sums).trans finish,.inl done⟩
  · exact ⟨_,(enter.trans sums).trans finish,.inr ⟨i + 1,by omega,more,v,rfl,again,r8⟩⟩

end WideJob

theorem prediction64_congr {coeff coeff' h h' : Nat → Word} {order : Nat}
    (coeffs : ∀ j < order, coeff j = coeff' j) (same : ∀ j < order, h j = h' j) :
    prediction64 coeff order h = prediction64 coeff' order h' := by
  apply Finset.sum_congr rfl
  intro j hj
  rw [coeffs j (Finset.mem_range.mp hj), same j (Finset.mem_range.mp hj)]

theorem composed_looks (coeff : Nat → Word) (order shift : Nat) :
    Looks order (composed coeff order shift) := by
  intro h h' same
  exact congrArg (composedShift · shift) (prediction64_congr (fun _ _ => rfl) same)

section
variable (call : LpcCall)

def wideJob : WideJob where
  toJob := call.job (composed call.q call.order call.shift) (composed_looks _ _ _)
  coeff := call.state.reg .r2
  shift := call.shift
  shift_small := call.shift_small
  coeff_apart := LpcCall.coeff_apart
  predicts := by
    funext h
    apply congrArg (composedShift · call.shift)
    exact prediction64_congr (fun _ hj => (LpcCall.saved_coeff hj).symm) (fun _ _ => rfl)

theorem prologue : ∃ t,
    execs ((Program.after .lpcRestoreSignalAsmArmWide wideProgram).take 4) call.state = some t ∧
    (wideJob call).Outer 0 t ∧ t.reg .r8 = addr call.base call.order := by
  refine ⟨_,rfl,⟨⟨?_,call.count,rfl,rfl⟩,LpcCall.saved_quantization,call.r3,?_⟩,
    LpcCall.saved_pointer⟩
  · exact (addr_zero _).symm
  · change call.state.reg .r2 + call.state.reg .r3 <<< 2 = addr (call.state.reg .r2) call.order
    rw [call.r3, words_asl, addr]

theorem finishes : ∃ c,
    Steps wideProgram (.running (Program.after .lpcRestoreSignalAsmArmWide wideProgram) call.state)
      c ∧ (wideJob call).Finished c := by
  obtain ⟨t,run,outer,r8⟩ := prologue call
  obtain ⟨c,steps,done⟩ := outer.finishes call.order_small call.order_positive call.nonempty r8
  exact ⟨c,(steps_take 4 run).trans steps,done⟩

/-- data[i-j-1] at `j`, when the plain 64-bit loop comes to sample `i`. -/
def history (i j : Nat) : Word :=
  restore (widePrediction call.q call.order call.shift) call.state.mem call.base
    (call.state.reg .r0) call.order i (addr call.base (i + (call.order - 1 - j)))

variable {call}

theorem plain_agrees {m : Mem}
    (fits : ∀ i < call.len,
      Fits ((prediction64 call.q call.order (history call i)).sshiftRight call.shift))
    (data : ∀ i < call.len, m (index call.data i) =
      call.state.mem (index (call.state.reg .r0) i) +
        composed call.q call.order call.shift fun j => m (index call.data (i - j - 1)))
    (warm : ∀ k < call.order, m (addr call.base k) = call.state.mem (addr call.base k))
    {i : Nat} (hi : i ≤ call.len) : ∀ k < call.order + i, m (addr call.base k) =
      restore (widePrediction call.q call.order call.shift) call.state.mem call.base
        (call.state.reg .r0) call.order i (addr call.base k) := by
  have small := call.small
  induction i with
  | zero => exact warm
  | succ i ih =>
    intro k hk
    by_cases last : k = call.order + i
    · subst last
      have past : ∀ j < call.order, m (index call.data (i - j - 1)) = history call i j := by
        intro j hj
        rw [index_past call.data hj]
        exact ih (by omega) _ (by omega)
      have residual : restore (widePrediction call.q call.order call.shift) call.state.mem call.base
          (call.state.reg .r0) call.order i (addr (call.state.reg .r0) i) =
          call.state.mem (addr (call.state.reg .r0) i) :=
        restore_residual (wideJob call).residual_apart (Nat.le_of_lt hi) hi
      have sum : prediction64 call.q call.order _ = _ := prediction64_congr (fun _ _ => rfl) past
      rw [Call.base_data, data i hi, composed, sum,
        composedShift_fits (by have := call.shift_small; omega) (fits i hi), ← Call.base_data,
        restore, Function.update_self, index_ofNat]
      exact congrArg (· + _) residual.symm
    · have ne : addr call.base k ≠ addr call.base (call.order + i) := fun same =>
        last (addr_injective _ (by omega) (by omega) same)
      rw [restore, Function.update_of_ne ne]
      exact ih (by omega) k (by omega)

end

/-- When every shifted prediction of the plain 64-bit loop fits in a signed word, the
    call leaves that loop's samples behind. -/
theorem lpcRestoreSignalAsmArmWide_restores (call : LpcCall)
    (fits : ∀ i < call.len,
      Fits ((prediction64 call.q call.order (history call i)).sshiftRight call.shift)) : ∃ t,
    Steps wideProgram (.running (Program.after .lpcRestoreSignalAsmArmWide wideProgram) call.state)
      (.returned (call.state.reg .r14) t) ∧
    (∀ i < call.len, t.mem (index call.data i) =
      call.state.mem (index (call.state.reg .r0) i) +
        ((∑ j ∈ Finset.range call.order,
          (call.state.mem (index (call.state.reg .r2) j)).signExtend 64 *
            (t.mem (index call.data (i - j - 1))).signExtend 64).sshiftRight
          call.shift).setWidth 32) ∧
    ∀ a, (∀ i < call.len, a ≠ index call.data i) →
      (∀ k < 10, a ≠ addr (below (call.state.reg .r13) 10) k) →
      t.mem a = call.state.mem a := by
  obtain ⟨c,steps,done⟩ := finishes call
  obtain ⟨t,rfl,data,frame⟩ := call.finished_result done
  have warm : ∀ k < call.order, t.mem (addr call.base k) = call.state.mem (addr call.base k) := by
    intro k hk
    have small := call.small
    apply frame
    · intro i hi same
      rw [← Call.base_data] at same
      have := addr_injective _ (by omega) (by omega) same
      omega
    · intro n hn
      exact call.samples.addr_ne call.stack call.samples_stack (by omega) (by omega)
  refine ⟨t,steps,?_,frame⟩
  intro i hi
  have past : ∀ j < call.order, t.mem (index call.data (i - j - 1)) = history call i j := by
    intro j hj
    rw [index_past call.data hj]
    exact plain_agrees fits data warm (Nat.le_of_lt hi) _ (by omega)
  have sum : (∑ j ∈ Finset.range call.order,
      (call.state.mem (index (call.state.reg .r2) j)).signExtend 64 *
        (t.mem (index call.data (i - j - 1))).signExtend 64) =
      prediction64 call.q call.order (history call i) := by
    simp only [index_ofNat]
    exact prediction64_congr (fun _ _ => rfl) past
  have shifted := composedShift_fits (by have := call.shift_small; omega) (fits i hi)
  rw [data i hi, sum, ← shifted]
  exact congrArg (fun v => _ + composedShift v call.shift)
    (prediction64_congr (fun _ _ => rfl) past)

theorem lpcRestoreSignalAsmArmWide_orderNine : ∃ t,
    Steps wideProgram
      (.running (Program.after .lpcRestoreSignalAsmArmWide wideProgram) orderNine.state)
      (.returned 0#32 t) ∧ t.mem 0x1024#32 = 0x10000005#32 ∧ t.mem 0x1028#32 = 0x0ffffff0#32 := by
  have fits : ∀ i < orderNine.len, Fits ((prediction64 orderNine.q orderNine.order
      (history orderNine i)).sshiftRight orderNine.shift) := by
    intro i inside
    obtain rfl | rfl : i = 0 ∨ i = 1 := by
      have few : i < 2 := inside
      omega
    all_goals
      unfold Fits
      decide
  obtain ⟨t,steps,data,frame⟩ := lpcRestoreSignalAsmArmWide_restores orderNine fits
  have warm (k : Nat) (inside : k < 9) : t.mem (index 0x1024#32 (k - 9)) =
      BitVec.ofNat 32 (0x10000000 + 1000 * k) := by
    interval_cases k <;> exact (frame _ (by decide) (by decide)).trans (by decide)
  have turn (i : Nat) (inside : i < 2) (past : Nat → Word)
      (known : ∀ j : Nat, j < 9 → t.mem (index 0x1024#32 (i - j - 1)) = past j) :
      t.mem (index 0x1024#32 i) = orderNine.state.mem (index 0x2000#32 i) + ((∑ j ∈ Finset.range 9,
        (orderNine.state.mem (index 0x3000#32 j)).signExtend 64 *
          (past j).signExtend 64).sshiftRight 15).setWidth 32 := by
    refine (data i inside).trans (congrArg (fun sum : BitVec 64 =>
      _ + (sum.sshiftRight 15).setWidth 32) (Finset.sum_congr rfl fun j member => ?_))
    exact congrArg (fun word : Word => _ * word.signExtend 64) (known j (Finset.mem_range.mp member))
  have first : t.mem (index 0x1024#32 (0 : Nat)) = 0x10000005#32 := by
    refine (turn 0 (by decide) (fun j => BitVec.ofNat 32 (0x10000000 + 1000 * (8 - j))) ?_).trans
      (by decide)
    intro j inside
    rw [← warm (8 - j) (by omega)]
    exact congrArg (fun k => t.mem (index 0x1024#32 k)) (by omega)
  have second : t.mem (index 0x1024#32 (1 : Nat)) = 0x0ffffff0#32 := by
    refine (turn 1 (by decide) (fun j => if j = 0 then 0x10000005#32
      else BitVec.ofNat 32 (0x10000000 + 1000 * (9 - j))) ?_).trans (by decide)
    intro j inside
    by_cases newest : j = 0
    · rw [newest, if_pos rfl, ← first]
      rfl
    · rw [if_neg newest, ← warm (9 - j) (by omega)]
      exact congrArg (fun k => t.mem (index 0x1024#32 k)) (by omega)
  exact ⟨t,steps,first,second⟩

end LpcWide
