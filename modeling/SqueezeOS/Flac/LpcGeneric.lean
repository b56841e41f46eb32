import SqueezeOS.Arm.Duff
import SqueezeOS.Flac.LpcOrders

/- The path of FLAC__lpc_restore_signal_asm_arm for orders above twelve: a Duff's
   device that sums from the oldest word on, with the coefficients backwards. -/
namespace LpcAsm
open Arm RestoreSignal

def duffs : Duff program where
  even
    | 4 => .duffsCase0
    | 3 => .duffsCase6
    | 2 => .duffsCase4
    | _ => .duffsCase2
  odd
    | 0 => .duffsCase1
    | 1 => .duffsCase3
    | 2 => .duffsCase5
    | _ => .duffsCase7
  pair := duffsCase7
  single := duffsCase1.take 3
  counter := .r7
  evenEnd := duffsCase2.drop 6
  oddEnd := Program.after .duffsEnd program
  even_code := by
    intro k low high
    interval_cases k <;> rfl
  odd_code := by
    intro k high
    interval_cases k <;> rfl

namespace LpcJob
variable (job : LpcJob)

/-- The first `m` terms, oldest word first. -/
def partialSum (i m : Nat) : Word :=
  ∑ t ∈ Finset.range m, job.word (i + t) * job.q (job.order - 1 - t)

structure Outer (i : Nat) (s : State) : Prop extends job.LpcTurn job.order i s where
  r2 : s.reg .r2 = addr job.coeff job.order
  r3 : s.reg .r3 = BitVec.ofNat 32 job.order
  r8 : s.reg .r8 = BitVec.ofNat 32 ((job.order + 7) / 8)

structure Acc (i m n : Nat) (s : State) : Prop extends job.Outer i s where
  r7 : s.reg .r7 = BitVec.ofNat 32 n
  r9 : s.reg .r9 = addr job.coeff (job.order - m)
  r12 : s.reg .r12 = job.partialSum i m
  r14 : s.reg .r14 = addr job.base (i + m)
  rounds : n < 2 ^ 32

variable {job}

theorem partialSum_succ (i m : Nat) : job.partialSum i (m + 1) =
    job.partialSum i m + job.word (i + m) * job.q (job.order - 1 - m) :=
  Finset.sum_range_succ _ _

theorem partialSum_order (i : Nat) : job.partialSum i job.order =
    ∑ j ∈ Finset.range job.order, job.q j * job.word (i + (job.order - 1 - j)) :=
  sum_oldest_first job.order (fun t => job.word (i + t)) job.q

theorem Outer.carry {i : Nat} {s t : State} (outer : job.Outer i s)
    (r0 : t.reg .r0 = s.reg .r0) (r1 : t.reg .r1 = s.reg .r1) (r2 : t.reg .r2 = s.reg .r2)
    (r3 : t.reg .r3 = s.reg .r3) (r5 : t.reg .r5 = s.reg .r5) (r8 : t.reg .r8 = s.reg .r8)
    (r13 : t.reg .r13 = s.reg .r13) (mem : t.mem = s.mem) : job.Outer i t :=
  ⟨outer.toLpcTurn.carry r0 r1 r5 r13 mem,r2.trans outer.r2,r3.trans outer.r3,r8.trans outer.r8⟩

theorem acc_pair {i m n : Nat} {s : State} (hi : i < job.len) (room : m + 2 ≤ job.order)
    (acc : job.Acc i m n s) :
    ∃ t, execs duffsCase7 s = some t ∧ job.Acc i (m + 2) n t := by
  obtain ⟨outer,r7,r9,r12,r14,rounds⟩ := acc
  obtain ⟨_,past,_,coeff,_⟩ := outer.toLpcTurn.reads hi (by omega)
  have older := past m (by omega)
  have newer := past (m + 1) (by omega)
  have low := coeff (job.order - m - 2) (by omega)
  have high := coeff (job.order - m - 2 + 1) (by omega)
  have down := below_addr job.coeff (m := job.order - m) (n := 2) (by omega)
  have back : job.order - 1 - m = job.order - m - 2 + 1 := by omega
  have back' : job.order - 1 - (m + 1) = job.order - m - 2 := by omega
  refine ⟨_,rfl,outer.carry ?_ ?_ ?_ ?_ ?_ ?_ ?_ ?_,?_,?_,?_,?_,rounds⟩
  all_goals simp [r7, r9, r12, r14, older, newer, low, high, down, Nat.add_assoc]
  · rw [Nat.sub_sub]
  · rw [show m + 2 = m + 1 + 1 from rfl, partialSum_succ, partialSum_succ, back, back']
    ring

theorem acc_single {i m n : Nat} {s : State} (hi : i < job.len) (room : m + 1 ≤ job.order)
    (acc : job.Acc i m n s) :
    ∃ t, execs (duffsCase1.take 3) s = some t ∧ job.Acc i (m + 1) n t := by
  obtain ⟨outer,r7,r9,r12,r14,rounds⟩ := acc
  obtain ⟨_,past,_,coeff,_⟩ := outer.toLpcTurn.reads hi (by omega)
  have older := past m (by omega)
  have low := coeff (job.order - m - 1) (by omega)
  have down := addr_sub job.coeff (m := job.order - m) (n := 4) rfl (by omega)
  have back : job.order - 1 - m = job.order - m - 1 := by omega
  refine ⟨_,rfl,outer.carry ?_ ?_ ?_ ?_ ?_ ?_ ?_ ?_,?_,?_,?_,?_,rounds⟩
  all_goals simp [r7, r9, r12, r14, older, low, down, Nat.add_assoc]
  · rw [Nat.sub_sub]
  · rw [partialSum_succ, back]
    ring

theorem acc_count {i m n : Nat} {s : State} (acc : job.Acc i m (n + 1) s) :
    ∃ t, exec (L := Label) (.subs .r7 .r7 (.imm 1)) s = .next t ∧ job.Acc i m n t ∧
      t.z = decide (n = 0) := by
  obtain ⟨outer,r7,r9,r12,r14,rounds⟩ := acc
  have less : BitVec.ofNat 32 (n + 1) - 1#32 = BitVec.ofNat 32 n := count_down (by omega)
  refine ⟨_,rfl,⟨outer.carry ?_ ?_ ?_ ?_ ?_ ?_ ?_ ?_,?_,?_,?_,?_,by omega⟩,?_⟩
  all_goals simp only [set_reg, set_mem, reduceCtorEq, ↓reduceIte, Operand.value, r7, r9, r12, r14,
    less]
  exact count_zero (by omega)

theorem acc_adds {i : Nat} (hi : i < job.len) : duffs.Adds job.order (job.Acc i) where
  pair _ _ _ room acc := acc_pair hi room acc
  single _ _ _ room acc := acc_single hi room acc
  count _ _ _ acc := acc_count acc

theorem Outer.enter {i : Nat} {s : State} (outer : job.Outer i s) (small : job.order ≤ 32)
    (r14 : s.reg .r14 = addr job.base (i + job.order)) {l : Label}
    (entry : duffs.table[job.order % 8]? = some l) :
    ∃ t, Steps program (.running (Program.after .duffsDeviceOuter program) s)
      (.running (Program.after l program) t) ∧ job.Acc i 0 ((job.order + 7) / 8) t := by
  have back : addr job.base (i + job.order) - BitVec.ofNat 32 (4 * job.order) =
      addr job.base i := by
    rw [addr_sub job.base (by omega) (by omega)]
    congr 1
    omega
  have mask : BitVec.ofNat 32 job.order &&& 7#32 = BitVec.ofNat 32 (job.order % 8) :=
    low_bits job.order 3
  obtain ⟨t,run,acc,r4,ls⟩ : ∃ t,
      execs ((Program.after .duffsDeviceOuter program).take 6) s = some t ∧
      job.Acc i 0 ((job.order + 7) / 8) t ∧ t.reg .r4 = BitVec.ofNat 32 (job.order % 8) ∧
      Cond.ls.holds t = decide (BitVec.ofNat 32 (job.order % 8) ≤ 7#32) := by
    refine ⟨_,rfl,⟨outer.carry ?_ ?_ ?_ ?_ ?_ ?_ ?_ ?_,?_,?_,?_,?_,by omega⟩,?_,?_⟩
    all_goals simp [outer.r2, outer.r3, outer.r8, r14, words_asl, back, partialSum]
    · exact mask
    · rw [mask]
      exact cmp_ls s _ _
  exact ⟨t,(steps_take 6 run).trans (Duff.dispatch _ r4 ls entry),acc⟩

theorem Acc.finish {i : Nat} {s : State} (acc : job.Acc i job.order 0 s) (hi : i < job.len) :
    ∃ t, execs (duffsEnd.take 4) s = some t ∧ job.LpcEnded job.order (i + 1) t ∧
      job.Outer (i + 1) t ∧ t.reg .r14 = addr job.base (i + 1 + job.order) := by
  obtain ⟨outer,r7,r9,r12,r14,rounds⟩ := acc
  have residual := outer.toLpcTurn.residual (Nat.le_of_lt hi) hi
  have sum := outer.toLpcTurn.made hi (partialSum_order i)
  have ended : ∀ t, execs (duffsEnd.take 4) s = some t → job.LpcEnded job.order (i + 1) t := by
    intro t run
    cases Option.some.inj run
    refine outer.toLpcTurn.next hi ?_ ?_ ?_ ?_ ?_ ?_
    all_goals simp [r12, r14, residual, outer.r0, outer.r5, shift_mod, sum]
  refine ⟨_,rfl,ended _ rfl,⟨(ended _ rfl).toLpcTurn,?_,?_,?_⟩,?_⟩
  all_goals simp [outer.r2, outer.r3, outer.r8, r14]
  congr 1
  omega

theorem Acc.ends {i : Nat} {s : State} {code : List (Instr Label)}
    (acc : job.Acc i job.order 0 s) (hi : i < job.len)
    (ends : code = duffs.evenEnd ∨ code = duffs.oddEnd) :
    ∃ c, Steps program (.running code s) c ∧ (job.Finished c ∨ i + 1 < job.len ∧
      ∃ t, c = .running (Program.after .duffsDeviceOuter program) t ∧ job.Outer (i + 1) t ∧
        t.reg .r14 = addr job.base (i + 1 + job.order)) := by
  obtain ⟨rest,same⟩ : ∃ rest, code = duffsEnd.take 4 ++
      .when .ne (.b .duffsDeviceOuter) :: .ldmfdPc .r13 popped :: rest := by
    rcases ends with even | odd
    · exact ⟨[],even⟩
    · exact ⟨_,odd⟩
  obtain ⟨t,run,ended,outer,r14⟩ := acc.finish hi
  have steps := steps_execs (p := program)
    (.when .ne (.b .duffsDeviceOuter) :: .ldmfdPc .r13 popped :: rest) run
  rw [same]
  obtain ⟨c,leave,done⟩ | ⟨more,again⟩ :=
    ended.ended.leave_or_repeat (p := program) .duffsDeviceOuter rest
  · exact ⟨c,steps.trans leave,.inl done⟩
  · exact ⟨_,steps.trans again,.inr ⟨by omega,t,rfl,outer,r14⟩⟩

theorem Outer.finishes {s : State} (outer : job.Outer 0 s) (small : job.order ≤ 32)
    (positive : 0 < job.order) (nonempty : 0 < job.len)
    (r14 : s.reg .r14 = addr job.base job.order) :
    ∃ c, Steps program (.running (Program.after .duffsDeviceOuter program) s) c ∧
      job.Finished c := by
  refine loop_finishes (fun i c => ∃ s, c = .running (Program.after .duffsDeviceOuter program) s ∧
    job.Outer i s ∧ s.reg .r14 = addr job.base (i + job.order)) ?_ 0 _ nonempty
    ⟨s,rfl,outer,by rw [r14, Nat.zero_add]⟩
  rintro i c hi ⟨s,rfl,outer,r14⟩
  have below : job.order % 8 < duffs.table.length := Nat.mod_lt _ (by decide)
  have entry := List.getElem?_eq_getElem below
  obtain ⟨t,enter,start⟩ := outer.enter small r14 entry
  obtain ⟨l,code,u,entry',sums,ends,acc⟩ := (acc_adds hi).device positive start
  cases Option.some.inj (entry.symm.trans entry')
  obtain ⟨c,finish,done | ⟨more,v,rfl,again,r14⟩⟩ := acc.ends hi ends
  · exact ⟨c,(enter.trans sums).trans finish,.inl done⟩
  · exact ⟨_,(enter.trans sums).trans finish,.inr ⟨i + 1,by omega,more,v,rfl,again,r14⟩⟩

theorem generic_finishes {s : State} (enter : job.Entered job.order s) (small : job.order ≤ 32)
    (r3 : s.reg .r3 = BitVec.ofNat 32 job.order) :
    ∃ c, Steps program (.running (Program.after .genericRestoreSignal program) s) c ∧
      job.Finished c := by
  obtain ⟨turn,positive,nonempty,r2,r14⟩ := enter
  have rounds := eighths_up (n := job.order) (by omega)
  obtain ⟨t,run,outer,last⟩ : ∃ t,
      execs ((Program.after .genericRestoreSignal program).take 3) s = some t ∧
      job.Outer 0 t ∧ t.reg .r14 = addr job.base job.order := by
    refine ⟨_,rfl,⟨turn.carry ?_ ?_ ?_ ?_ ?_,?_,?_,?_⟩,?_⟩
    all_goals simp [r2, r3, r14, words_asl, rounds]
    rfl
  obtain ⟨c,steps,done⟩ := outer.finishes small positive nonempty last
  exact ⟨c,(steps_take 3 run).trans steps,done⟩

end LpcJob
end LpcAsm
