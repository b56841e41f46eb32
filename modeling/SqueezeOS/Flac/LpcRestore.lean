import SqueezeOS.Flac.LpcCall
import SqueezeOS.Flac.LpcGeneric

/- FLAC__lpc_restore_signal_asm_arm as a whole: the registers are saved, the order
   selects the code, and the caller finds the plain recurrence in data. -/
namespace LpcAsm
open Arm RestoreSignal

theorem prediction_looks (coeff : Nat → Word) (order shift : Nat) :
    Looks order (prediction coeff order shift) := by
  intro h h' same
  unfold prediction
  congr 1
  apply Finset.sum_congr rfl
  intro j hj
  rw [same j (Finset.mem_range.mp hj)]

theorem prediction_congr {coeff coeff' : Nat → Word} {order shift : Nat}
    (same : ∀ j < order, coeff j = coeff' j) :
    prediction coeff order shift = prediction coeff' order shift := by
  funext h
  unfold prediction
  congr 1
  apply Finset.sum_congr rfl
  intro j hj
  rw [same j (Finset.mem_range.mp hj)]

namespace LpcCall
variable (call : LpcCall)

def lpcJob : LpcJob where
  toJob := call.job (prediction call.q call.order call.shift) (prediction_looks _ _ _)
  coeff := call.state.reg .r2
  shift := call.shift
  shift_small := call.shift_small
  coeff_apart := coeff_apart
  predicts := prediction_congr fun _ hj => (saved_coeff hj).symm

theorem prologue : ∃ t,
    execs ((Program.after .lpcRestoreSignalAsmArm program).take 5) call.state = some t ∧
    call.lpcJob.Entered call.order t ∧ t.reg .r3 = BitVec.ofNat 32 call.order ∧
    t.reg .r6 = BitVec.ofNat 32 (call.order - 1) ∧
    Cond.ls.holds t = decide (call.order ≤ 12) := by
  have less : BitVec.ofNat 32 call.order - 1#32 = BitVec.ofNat 32 (call.order - 1) :=
    count_down call.order_positive
  have small := call.order_small
  have bound : (BitVec.ofNat 32 (call.order - 1) ≤ 11#32) = (call.order ≤ 12) := by
    rw [BitVec.le_def]
    simp only [BitVec.toNat_ofNat, eq_iff_iff]
    omega
  refine ⟨_,rfl,⟨⟨⟨?_,call.count,rfl,rfl⟩,rfl,saved_quantization⟩,call.order_positive,
    call.nonempty,rfl,saved_pointer⟩,call.r3,?_,?_⟩
  · exact (addr_zero _).symm
  · exact (congrArg (· - 1#32) call.r3).trans less
  · refine (cmp_ls _ _ _).trans ?_
    simp [call.r3, less, bound]

variable {call}

def orders : List Label :=
  [.order1, .order2, .order3, .order4, .order5, .order6, .order7, .order8, .order9, .order10,
   .order11, .order12]

theorem selected_finishes {s : State} (enter : call.lpcJob.Entered call.order s)
    (small : call.order ≤ 12) {l : Label} (entry : orders[call.order - 1]? = some l) :
    ∃ c, Steps program (.running (Program.after l program) s) c ∧ call.lpcJob.Finished c := by
  have positive := call.order_positive
  generalize call.order = n at enter small entry positive
  interval_cases n <;> cases Option.some.inj entry
  · exact LpcJob.order1_finishes enter
  · exact LpcJob.order2_finishes enter
  · exact LpcJob.order3_finishes enter
  · exact LpcJob.order4_finishes enter
  · exact LpcJob.order5_finishes enter
  · exact LpcJob.order6_finishes enter
  · exact LpcJob.order7_finishes enter
  · exact LpcJob.order8_finishes enter
  · exact LpcJob.order9_finishes enter
  · exact LpcJob.order10_finishes enter
  · exact LpcJob.order11_finishes enter
  · exact LpcJob.order12_finishes enter

variable (call)

theorem finishes : ∃ c,
    Steps program (.running (Program.after .lpcRestoreSignalAsmArm program) call.state) c ∧
      call.lpcJob.Finished c := by
  have positive := call.order_positive
  obtain ⟨t,run,enter,r3,r6,ls⟩ := call.prologue
  have start := steps_take (p := program) 5 run
  by_cases small : call.order ≤ 12
  · have index : (t.reg .r6).toNat = call.order - 1 := by
      rw [r6, BitVec.toNat_ofNat]
      omega
    have inside : call.order - 1 < orders.length := by
      change call.order - 1 < 12
      omega
    have entry := List.getElem?_eq_getElem inside
    have table : exec (.when .ls (.ldrPc .r6 orders)) t = .jump orders[call.order - 1] t :=
      exec_table (by rw [ls, decide_eq_true small]) (by rw [index, entry])
    obtain ⟨c,steps,done⟩ := selected_finishes enter small entry
    exact ⟨c,(start.trans (steps_jump table)).trans steps,done⟩
  · have above : Cond.ls.holds t = false := by rw [ls, decide_eq_false small]
    obtain ⟨c,steps,done⟩ := LpcJob.generic_finishes enter call.order_small r3
    have skip : Steps program (.running ((Program.after .lpcRestoreSignalAsmArm program).drop 5) t)
        (.running ((Program.after .lpcRestoreSignalAsmArm program).drop 6) t) :=
      steps_next (exec_unless above)
    exact ⟨c,((start.trans skip).trans (steps_jump rfl)).trans steps,done⟩

end LpcCall

/-- The recurrence holds of the words the call leaves behind, whatever the order,
    and outside data it touched only its own stack frame. -/
theorem lpcRestoreSignalAsmArm_restores (call : LpcCall) : ∃ t,
    Steps program (.running (Program.after .lpcRestoreSignalAsmArm program) call.state)
      (.returned (call.state.reg .r14) t) ∧
    (∀ i < call.len, t.mem (index call.data i) =
      call.state.mem (index (call.state.reg .r0) i) +
        (∑ j ∈ Finset.range call.order, call.state.mem (index (call.state.reg .r2) j) *
          t.mem (index call.data (i - j - 1))).sshiftRight call.shift) ∧
    ∀ a, (∀ i < call.len, a ≠ index call.data i) →
      (∀ k < 10, a ≠ addr (below (call.state.reg .r13) 10) k) →
      t.mem a = call.state.mem a := by
  obtain ⟨c,steps,done⟩ := call.finishes
  obtain ⟨t,rfl,data,frame⟩ := call.finished_result done
  refine ⟨t,steps,?_,frame⟩
  intro i hi
  rw [data i hi]
  simp only [index_ofNat]
  rfl

theorem lpcRestoreSignalAsmArm_wrapping : ∃ t,
    Steps program (.running (Program.after .lpcRestoreSignalAsmArm program) wrapping.state)
      (.returned 0#32 t) ∧ ∀ i : Nat, i < 5 → t.mem (index 0x1008#32 i) =
        [0xe0000001#32, 0x20000003#32, 0xc0000007#32, 0x1000000d#32, 0x38000015#32].getD i 0#32 := by
  obtain ⟨t,steps,data,frame⟩ := lpcRestoreSignalAsmArm_restores wrapping
  refine ⟨t,steps,?_⟩
  have oldest : t.mem (index 0x1008#32 (0 - (1 : Nat) - 1)) = 0x60000000#32 :=
    frame 0x1000#32 (by decide) (by decide)
  have newest : t.mem (index 0x1008#32 (0 - (0 : Nat) - 1)) = 0x60000000#32 :=
    frame 0x1004#32 (by decide) (by decide)
  have turn (i : Nat) (inside : i < 5) (one other : Word)
      (newer : t.mem (index 0x1008#32 (i - (0 : Nat) - 1)) = one)
      (older : t.mem (index 0x1008#32 (i - (1 : Nat) - 1)) = other) : t.mem (index 0x1008#32 i) =
      wrapping.state.mem (index 0x2000#32 i) + (3#32 * one + 0xffffffff#32 * other).sshiftRight 1 := by
    have here := data i inside
    rw [show wrapping.order = 1 + 1 from rfl, Finset.sum_range_succ, Finset.sum_range_one] at here
    rw [← newer, ← older]
    exact here
  have first := turn 0 (by decide) _ _ newest oldest
  have second := turn 1 (by decide) _ _ first newest
  have third := turn 2 (by decide) _ _ second first
  have fourth := turn 3 (by decide) _ _ third second
  have fifth := turn 4 (by decide) _ _ fourth third
  intro i inside
  interval_cases i
  · exact first
  · exact second.trans (by decide)
  · exact third.trans (by decide)
  · exact fourth.trans (by decide)
  · exact fifth.trans (by decide)

end LpcAsm
