import SqueezeOS.Flac.FixedAsm
import Mathlib.Tactic.IntervalCases

/- FLAC__fixed_restore_signal_asm_arm restores one sample at a time until the rest is
   a multiple of the block length, then block by block. -/
namespace FixedAsm
open Arm RestoreSignal

/-- The polynomial predictors, from data[i-1-j] at `j`. -/
def fixedPrediction : Nat → (Nat → Word) → Word
  | 0, _ => 0
  | 1, h => h 0
  | 2, h => 2 * h 0 - h 1
  | 3, h => 3 * (h 0 - h 1) + h 2
  | 4, h => 4 * (h 0 + h 2) - 6 * h 1 - h 3
  | _, _ => 0

structure FixedJob extends Job where
  predicts : predict = fixedPrediction order

namespace FixedJob
variable (job : FixedJob)

structure FixedTurn (n i : Nat) (s : State) : Prop extends job.Turn i s where
  order : job.order = n
  r3 : s.reg .r3 = addr job.base (i + n)

structure FixedEnded (n i : Nat) (s : State) : Prop extends job.FixedTurn n i s where
  z : s.z = decide (i = job.len)

variable {job}

theorem FixedEnded.ended {n i : Nat} {s : State} (h : job.FixedEnded n i s) : job.Ended i s :=
  ⟨h.toTurn,h.z⟩

theorem FixedTurn.flag {n i : Nat} {s : State} (turn : job.FixedTurn n i s) (z : Bool) :
    job.FixedTurn n i { s with z := z } :=
  ⟨⟨turn.r0,turn.r1,turn.r13,turn.mem⟩,turn.order,turn.r3⟩

theorem FixedTurn.tst {n i : Nat} {s : State} (turn : job.FixedTurn n i s) (k : Nat) :
    ∃ t, exec (L := FixedLabel) (.tst .r1 (.imm (2 ^ k - 1))) s = .next t ∧
      job.FixedTurn n i t ∧ t.reg = s.reg ∧ t.z = decide ((job.len - i) % 2 ^ k = 0) := by
  have small := job.small
  have bound : (job.len - i) % 2 ^ k < 2 ^ 32 :=
    Nat.lt_of_le_of_lt (Nat.mod_le _ _) (by omega)
  refine ⟨_,rfl,turn.flag _,rfl,?_⟩
  simp only [Operand.value, turn.r1, low_bits]
  exact count_zero bound

section
variable {n k : Nat} {keeps : Nat → (Reg → Word) → Prop}
variable {la lb : FixedLabel} {a b : Nat} {rest : List (Instr FixedLabel)}

theorem loops
    (middle : (Program.after la fixedProgram).drop a = .when .eq (.ldmfdPc .r13 popped) ::
      .tst .r1 (.imm (2 ^ k - 1)) :: .when .ne (.b la) :: Program.after lb fixedProgram)
    (bottom : (Program.after lb fixedProgram).drop b =
      .when .ne (.b lb) :: .ldmfdPc .r13 popped :: rest)
    (one : ∀ i s, i < job.len → job.FixedTurn n i s → keeps i s.reg →
      ∃ t, execs ((Program.after la fixedProgram).take a) s = some t ∧
        job.FixedEnded n (i + 1) t ∧ keeps (i + 1) t.reg)
    (block : ∀ i s, i + 2 ^ k ≤ job.len → job.FixedTurn n i s → keeps i s.reg →
      ∃ t, execs ((Program.after lb fixedProgram).take b) s = some t ∧
        job.FixedEnded n (i + 2 ^ k) t ∧ keeps (i + 2 ^ k) t.reg)
    {i : Nat} {s : State} (hi : i < job.len) (turn : job.FixedTurn n i s) (start : keeps i s.reg)
    {c : Config FixedLabel} (at_loop : c = .running (Program.after la fixedProgram) s ∨
      c = .running (Program.after lb fixedProgram) s ∧ (job.len - i) % 2 ^ k = 0) :
    ∃ c', Steps fixedProgram c c' ∧ job.Finished c' := by
  refine loop_finishes (fun i c => ∃ s, job.FixedTurn n i s ∧ keeps i s.reg ∧
    (c = .running (Program.after la fixedProgram) s ∨
      c = .running (Program.after lb fixedProgram) s ∧ (job.len - i) % 2 ^ k = 0))
    ?_ i c hi ⟨s,turn,start,at_loop⟩
  rintro i c hi ⟨s,turn,start,rfl | ⟨rfl,whole⟩⟩
  · obtain ⟨t,run,ended,kept⟩ := one i s hi turn start
    have steps := steps_take (p := fixedProgram) a run
    rw [middle] at steps
    obtain ⟨c,leave,done⟩ | ⟨more,again⟩ := ended.ended.leave_or_continue (p := fixedProgram)
      (.tst .r1 (.imm (2 ^ k - 1)) :: .when .ne (.b la) :: Program.after lb fixedProgram)
    · exact ⟨c,steps.trans leave,.inl done⟩
    · obtain ⟨u,test,turn,same,z⟩ := ended.toFixedTurn.tst k
      have tested := (steps.trans again).trans (steps_next test)
      rw [← same] at kept
      by_cases whole : (job.len - (i + 1)) % 2 ^ k = 0
      · have flag : Cond.ne.holds u = false := by simp [z, whole]
        exact ⟨_,tested.trans (steps_next (exec_unless flag)),
          .inr ⟨i + 1,by omega,by omega,u,turn,kept,.inr ⟨rfl,whole⟩⟩⟩
      · have flag : Cond.ne.holds u = true := by simp [z, whole]
        exact ⟨_,tested.trans (steps_jump ((exec_when flag).trans rfl)),
          .inr ⟨i + 1,by omega,by omega,u,turn,kept,.inl rfl⟩⟩
  · have positive : 0 < 2 ^ k := Nat.two_pow_pos k
    have room : 2 ^ k ≤ job.len - i := Nat.le_of_dvd (by omega) (Nat.dvd_of_mod_eq_zero whole)
    obtain ⟨t,run,ended,kept⟩ := block i s (by omega) turn start
    have steps := steps_take (p := fixedProgram) b run
    rw [bottom] at steps
    obtain ⟨c,leave,done⟩ | ⟨more,again⟩ :=
      ended.ended.leave_or_repeat (p := fixedProgram) lb rest
    · exact ⟨c,steps.trans leave,.inl done⟩
    · have whole' : (job.len - (i + 2 ^ k)) % 2 ^ k = 0 := by
        rw [← Nat.sub_sub, Nat.mod_eq_sub_mod room |>.symm]
        exact whole
      exact ⟨_,steps.trans again,
        .inr ⟨i + 2 ^ k,by omega,by omega,t,ended.toFixedTurn,kept,.inr ⟨rfl,whole'⟩⟩⟩

variable (la lb keeps)

theorem enters {le : FixedLabel} {e : Nat}
    (falls : (Program.after le fixedProgram).drop e = .tst .r1 (.imm (2 ^ k - 1)) ::
      .when .eq (.b lb) :: Program.after la fixedProgram)
    (loop : ∀ {s : State} {c : Config FixedLabel}, job.FixedTurn n 0 s → keeps 0 s.reg →
      (c = .running (Program.after la fixedProgram) s ∨
        c = .running (Program.after lb fixedProgram) s ∧ (job.len - 0) % 2 ^ k = 0) →
      ∃ c', Steps fixedProgram c c' ∧ job.Finished c')
    {s : State} (load : ∃ t, execs ((Program.after le fixedProgram).take e) s = some t ∧
      job.FixedTurn n 0 t ∧ keeps 0 t.reg) :
    ∃ c, Steps fixedProgram (.running (Program.after le fixedProgram) s) c ∧ job.Finished c := by
  obtain ⟨t,run,turn,start⟩ := load
  have steps := steps_take (p := fixedProgram) e run
  rw [falls] at steps
  obtain ⟨u,test,turn,same,z⟩ := turn.tst k
  have tested := steps.trans (steps_next test)
  rw [← same] at start
  by_cases whole : (job.len - 0) % 2 ^ k = 0
  · have flag : Cond.eq.holds u = true := by simpa [z] using whole
    obtain ⟨c,finish,done⟩ := loop turn start (.inr ⟨rfl,whole⟩)
    exact ⟨c,(tested.trans (steps_jump ((exec_when flag).trans rfl))).trans finish,done⟩
  · have flag : Cond.eq.holds u = false := by simpa [z] using whole
    obtain ⟨c,finish,done⟩ := loop turn start (.inl rfl)
    exact ⟨c,(tested.trans (steps_next (exec_unless flag))).trans finish,done⟩

end

theorem FixedTurn.value {n i k : Nat} {s : State} (turn : job.FixedTurn n i s)
    (hk : i + k < job.len) : job.word (n + (i + k)) = job.mem (addr job.residual (i + k)) +
      fixedPrediction n fun j => job.word (i + k + (n - 1 - j)) := by
  have h := Job.word_succ hk
  rw [job.predicts, turn.order] at h
  exact h

theorem shl_one (w : Word) : w <<< 1 = 2 * w := by
  rw [BitVec.shiftLeft_eq_mul_twoPow, mul_comm]
  rfl

theorem shl_two (w : Word) : w <<< 2 = 4 * w := by
  rw [BitVec.shiftLeft_eq_mul_twoPow, mul_comm]
  rfl

theorem FixedTurn.value1 {i : Nat} {s : State} (turn : job.FixedTurn 1 i s) (k : Nat)
    (hk : i + k < job.len) :
    job.mem (addr job.residual (i + k)) + job.word (i + k) = job.word (i + (k + 1)) := by
  have h := turn.value hk
  rw [show 1 + (i + k) = i + (k + 1) by omega] at h
  exact h.symm

theorem FixedTurn.value2 {i : Nat} {s : State} (turn : job.FixedTurn 2 i s) (k : Nat)
    (hk : i + k < job.len) : job.mem (addr job.residual (i + k)) + job.word (i + (k + 1)) <<< 1 -
      job.word (i + k) = job.word (i + (k + 2)) := by
  have h := turn.value hk
  rw [show 2 + (i + k) = i + (k + 2) by omega] at h
  rw [h, shl_one, fixedPrediction]
  simp only [Nat.add_assoc, Nat.reduceSub, Nat.sub_zero, Nat.add_zero]
  ring

theorem FixedTurn.value3 {i : Nat} {s : State} (turn : job.FixedTurn 3 i s) (k : Nat)
    (hk : i + k < job.len) : job.mem (addr job.residual (i + k)) + job.word (i + k) +
      (job.word (i + (k + 2)) - job.word (i + (k + 1)) +
        (job.word (i + (k + 2)) - job.word (i + (k + 1))) <<< 1) = job.word (i + (k + 3)) := by
  have h := turn.value hk
  rw [show 3 + (i + k) = i + (k + 3) by omega] at h
  rw [h, shl_one, fixedPrediction]
  simp only [Nat.add_assoc, Nat.reduceSub, Nat.sub_zero, Nat.add_zero]
  ring

/-- The value as do_order_4 computes it, with its shift of a sum distributed. -/
theorem FixedTurn.value4 {i : Nat} {s : State} (turn : job.FixedTurn 4 i s) (k : Nat)
    (hk : i + k < job.len) : job.mem (addr job.residual (i + k)) - job.word (i + k) +
      (job.word (i + (k + 3)) <<< 2 + job.word (i + (k + 1)) <<< 2) -
        job.word (i + (k + 2)) <<< 2 - job.word (i + (k + 2)) <<< 1 = job.word (i + (k + 4)) := by
  have h := turn.value hk
  rw [show 4 + (i + k) = i + (k + 4) by omega] at h
  rw [h, shl_one, shl_two, shl_two, shl_two, fixedPrediction]
  simp only [Nat.add_assoc, Nat.reduceSub, Nat.sub_zero, Nat.add_zero]
  ring

theorem FixedTurn.one {n i : Nat} {s t : State} (turn : job.FixedTurn n i s) (hi : i < job.len)
    (r0 : t.reg .r0 = addr job.residual (i + 1)) (r1 : t.reg .r1 = s.reg .r1 - 1#32)
    (z : t.z = (s.reg .r1 - 1#32 == 0#32)) (r3 : t.reg .r3 = addr job.base (i + (n + 1)))
    (r13 : t.reg .r13 = s.reg .r13) (mem : t.mem = job.restored (i + 1)) :
    job.FixedEnded n (i + 1) t := by
  have ended := turn.advance hi r0 r1 z r13 mem
  exact ⟨⟨ended.toTurn,turn.order,r3.trans (by rw [Nat.add_right_comm, Nat.add_assoc])⟩,ended.z⟩

theorem FixedTurn.stored {n i : Nat} {s : State} (turn : job.FixedTurn n i s) :
    Function.update s.mem (addr job.base (i + n)) (job.word (i + n)) = job.restored (i + 1) := by
  rw [turn.mem, ← turn.order, Nat.add_comm i]
  exact Job.update_restored rfl

theorem FixedTurn.block {n i : Nat} {s t : State} {outs : List Reg} (turn : job.FixedTurn n i s)
    (room : i + outs.length ≤ job.len) (r0 : t.reg .r0 = addr job.residual (i + outs.length))
    (r1 : t.reg .r1 = s.reg .r1) (r3 : t.reg .r3 = s.reg .r3) (r13 : t.reg .r13 = s.reg .r13)
    (mem : t.mem = s.mem) (values : job.Holds outs (i + n) t.reg) :
    ∃ u, execs (L := FixedLabel) [.stm .ia .r3 true outs, .subs .r1 .r1 (.imm outs.length)] t =
      some u ∧ job.FixedEnded n (i + outs.length) u ∧
      ∀ r, r ≠ .r1 → r ≠ .r3 → u.reg r = t.reg r := by
  have stored : storeRegs t.reg (t.reg .r3) 0 outs t.mem = job.restored (i + outs.length) := by
    rw [Job.Holds, ← turn.order] at values
    rw [r3, turn.r3, mem, turn.mem, ← turn.order]
    exact Job.storeRegs_restored values
  have ended : ∀ u, execs (L := FixedLabel)
      [.stm .ia .r3 true outs, .subs .r1 .r1 (.imm outs.length)] t = some u →
      job.Ended (i + outs.length) u := by
    intro u run
    cases Option.some.inj run
    exact turn.advance room (by simpa using r0) (by simp [r1]) (by simp [r1]) (by simpa using r13)
      stored
  refine ⟨_,rfl,⟨⟨(ended _ rfl).toTurn,turn.order,?_⟩,(ended _ rfl).z⟩,?_⟩
  · simp [r3, turn.r3]
    congr 1
    omega
  · intro r h1 h3
    simp [h1, h3]

theorem holds_history {n i : Nat} {outs : List Reg} {t u : Reg → Word} (short : n ≤ outs.length)
    (values : job.Holds outs (i + n) t)
    (kept : ∀ r ∈ outs.drop (outs.length - n), u r = t r) :
    job.Holds (outs.drop (outs.length - n)) (i + outs.length) u := by
  unfold Job.Holds at values ⊢
  rw [List.map_congr_left kept, List.map_drop, values, ← List.map_drop, List.drop_range',
    List.length_drop]
  have rest : outs.length - (outs.length - n) = n := by omega
  rw [rest]
  apply List.ext_getElem
  · simp
  · intro k _ _
    simp
    congr 1
    omega

theorem FixedTurn.block_history (code : List (Instr FixedLabel)) (outs : List Reg) {n i : Nat}
    {s t : State} (turn : job.FixedTurn n i s) (room : i + outs.length ≤ job.len)
    (short : n ≤ outs.length) (fresh : ∀ r ∈ outs, r ≠ .r1 ∧ r ≠ .r3)
    (run : execs code s = some t) (r0 : t.reg .r0 = addr job.residual (i + outs.length))
    (r1 : t.reg .r1 = s.reg .r1) (r3 : t.reg .r3 = s.reg .r3) (r13 : t.reg .r13 = s.reg .r13)
    (mem : t.mem = s.mem) (values : job.Holds outs (i + n) t.reg) :
    ∃ u, execs (code ++ [.stm .ia .r3 true outs, .subs .r1 .r1 (.imm outs.length)]) s = some u ∧
      job.FixedEnded n (i + outs.length) u ∧
      job.Holds (outs.drop (outs.length - n)) (i + outs.length) u.reg := by
  obtain ⟨u,store,ended,same⟩ := turn.block room r0 r1 r3 r13 mem values
  refine ⟨u,(execs_append run).trans store,ended,holds_history short values ?_⟩
  intro r member
  obtain ⟨not1,not3⟩ := fresh r (List.mem_of_mem_drop member)
  exact same r not1 not3

theorem FixedTurn.residuals {n i : Nat} {s : State} (turn : job.FixedTurn n i s) {k : Nat}
    (room : i + k ≤ job.len) (positive : 0 < k) :
    s.mem (addr job.residual i) = job.mem (addr job.residual i) ∧
    ∀ t < k, s.mem (addr job.residual (i + t)) = job.mem (addr job.residual (i + t)) :=
  ⟨turn.residual (by omega) (by omega),fun _ ht => turn.residual (by omega) (by omega)⟩

theorem order1_one (i : Nat) (s : State) (hi : i < job.len) (turn : job.FixedTurn 1 i s)
    (history : job.Holds [.r14] i s.reg) :
    ∃ t, execs ((Program.after .order1a fixedProgram).take 4) s = some t ∧
      job.FixedEnded 1 (i + 1) t ∧ job.Holds [.r14] (i + 1) t.reg := by
  simp only [Job.Holds, List.map_cons, List.map_nil, List.length_cons, List.length_nil,
    List.range', Nat.add_zero, Nat.reduceAdd, List.cons.injEq, and_true] at history
  obtain ⟨residual,_⟩ := turn.residuals (k := 1) hi (by decide)
  have value := turn.value1 0 hi
  have stored := turn.stored
  simp only [Nat.add_zero, Nat.zero_add] at value
  refine ⟨_,rfl,turn.one hi ?_ ?_ ?_ ?_ ?_ ?_,?_⟩
  all_goals simp [Job.Holds, history, turn.r0, turn.r3, residual, value,
    stored, Nat.add_assoc]

theorem order1_block (i : Nat) (s : State) (room : i + 8 ≤ job.len)
    (turn : job.FixedTurn 1 i s) (history : job.Holds [.r14] i s.reg) :
    ∃ t, execs ((Program.after .order1b fixedProgram).take 11) s = some t ∧
      job.FixedEnded 1 (i + 8) t ∧ job.Holds [.r14] (i + 8) t.reg := by
  simp only [Job.Holds, List.map_cons, List.map_nil, List.length_cons, List.length_nil,
    List.range', Nat.add_zero, Nat.reduceAdd, List.cons.injEq, and_true] at history
  obtain ⟨first,residual⟩ := turn.residuals room (by decide)
  have v0 := turn.value1 0 (by omega)
  have v1 := turn.value1 1 (by omega)
  have v2 := turn.value1 2 (by omega)
  have v3 := turn.value1 3 (by omega)
  have v4 := turn.value1 4 (by omega)
  have v5 := turn.value1 5 (by omega)
  have v6 := turn.value1 6 (by omega)
  have v7 := turn.value1 7 (by omega)
  simp only [Nat.add_zero, Nat.reduceAdd] at v0 v1 v2 v3 v4 v5 v6 v7
  refine turn.block_history (order1b.take 9) [.r2, .r4, .r5, .r6, .r7, .r8, .r9, .r14] room (by decide)
    (by decide) rfl ?_ ?_ ?_ ?_ ?_ ?_
  all_goals simp [Job.Holds, List.range', history, turn.r0, first, residual,
    v0, v1, v2, v3, v4, v5, v6, v7, Nat.add_assoc]

theorem order2_one (i : Nat) (s : State) (hi : i < job.len) (turn : job.FixedTurn 2 i s)
    (history : job.Holds [.r12, .r14] i s.reg) :
    ∃ t, execs ((Program.after .order2a fixedProgram).take 7) s = some t ∧
      job.FixedEnded 2 (i + 1) t ∧ job.Holds [.r12, .r14] (i + 1) t.reg := by
  simp only [Job.Holds, List.map_cons, List.map_nil, List.length_cons, List.length_nil,
    List.range', Nat.add_zero, Nat.reduceAdd, List.cons.injEq, and_true] at history
  obtain ⟨r12,r14⟩ := history
  obtain ⟨residual,_⟩ := turn.residuals (k := 1) hi (by decide)
  have value := turn.value2 0 hi
  have stored := turn.stored
  simp only [Nat.add_zero, Nat.zero_add] at value
  refine ⟨_,rfl,turn.one hi ?_ ?_ ?_ ?_ ?_ ?_,?_⟩
  all_goals simp [Job.Holds, List.range', r12, r14, turn.r0, turn.r3, residual, value,
    stored, Nat.add_assoc]

theorem order2_block (i : Nat) (s : State) (room : i + 8 ≤ job.len)
    (turn : job.FixedTurn 2 i s) (history : job.Holds [.r12, .r14] i s.reg) :
    ∃ t, execs ((Program.after .order2b fixedProgram).take 19) s = some t ∧
      job.FixedEnded 2 (i + 8) t ∧ job.Holds [.r12, .r14] (i + 8) t.reg := by
  simp only [Job.Holds, List.map_cons, List.map_nil, List.length_cons, List.length_nil,
    List.range', Nat.add_zero, Nat.reduceAdd, List.cons.injEq, and_true] at history
  obtain ⟨r12,r14⟩ := history
  obtain ⟨first,residual⟩ := turn.residuals room (by decide)
  have v0 := turn.value2 0 (by omega)
  have v1 := turn.value2 1 (by omega)
  have v2 := turn.value2 2 (by omega)
  have v3 := turn.value2 3 (by omega)
  have v4 := turn.value2 4 (by omega)
  have v5 := turn.value2 5 (by omega)
  have v6 := turn.value2 6 (by omega)
  have v7 := turn.value2 7 (by omega)
  simp only [Nat.add_zero, Nat.reduceAdd] at v0 v1 v2 v3 v4 v5 v6 v7
  refine turn.block_history (order2b.take 17) [.r2, .r4, .r5, .r6, .r7, .r8, .r12, .r14] room (by decide)
    (by decide) rfl ?_ ?_ ?_ ?_ ?_ ?_
  all_goals simp [Job.Holds, List.range', r12, r14, turn.r0, first, residual,
    v0, v1, v2, v3, v4, v5, v6, v7, Nat.add_assoc]

theorem order3_one (i : Nat) (s : State) (hi : i < job.len) (turn : job.FixedTurn 3 i s)
    (history : job.Holds [.r11, .r12, .r14] i s.reg) :
    ∃ t, execs ((Program.after .order3a fixedProgram).take 8) s = some t ∧
      job.FixedEnded 3 (i + 1) t ∧ job.Holds [.r11, .r12, .r14] (i + 1) t.reg := by
  simp only [Job.Holds, List.map_cons, List.map_nil, List.length_cons, List.length_nil,
    List.range', Nat.add_zero, Nat.reduceAdd, List.cons.injEq, and_true] at history
  obtain ⟨r11,r12,r14⟩ := history
  obtain ⟨residual,_⟩ := turn.residuals (k := 1) hi (by decide)
  have value := turn.value3 0 hi
  have stored := turn.stored
  simp only [Nat.add_zero, Nat.zero_add] at value
  have past : ∀ k < 4, job.restored (i + 1) (addr job.base (i + k)) = job.word (i + k) := by
    intro k hk
    exact Job.restored_word hi (by rw [turn.order]; omega)
  refine ⟨_,rfl,turn.one hi ?_ ?_ ?_ ?_ ?_ ?_,?_⟩
  all_goals simp [Job.Holds, List.range', r11, r12, r14, turn.r0, turn.r3, residual, value,
    stored, Nat.add_assoc, past]

theorem order3_block (i : Nat) (s : State) (room : i + 8 ≤ job.len)
    (turn : job.FixedTurn 3 i s) (history : job.Holds [.r11, .r12, .r14] i s.reg) :
    ∃ t, execs ((Program.after .order3b fixedProgram).take 35) s = some t ∧
      job.FixedEnded 3 (i + 8) t ∧ job.Holds [.r11, .r12, .r14] (i + 8) t.reg := by
  simp only [Job.Holds, List.map_cons, List.map_nil, List.length_cons, List.length_nil,
    List.range', Nat.add_zero, Nat.reduceAdd, List.cons.injEq, and_true] at history
  obtain ⟨r11,r12,r14⟩ := history
  obtain ⟨first,residual⟩ := turn.residuals room (by decide)
  have v0 := turn.value3 0 (by omega)
  have v1 := turn.value3 1 (by omega)
  have v2 := turn.value3 2 (by omega)
  have v3 := turn.value3 3 (by omega)
  have v4 := turn.value3 4 (by omega)
  have v5 := turn.value3 5 (by omega)
  have v6 := turn.value3 6 (by omega)
  have v7 := turn.value3 7 (by omega)
  simp only [Nat.add_zero, Nat.reduceAdd] at v0 v1 v2 v3 v4 v5 v6 v7
  refine turn.block_history (order3b.take 33) [.r2, .r4, .r5, .r6, .r7, .r11, .r12, .r14] room (by decide)
    (by decide) rfl ?_ ?_ ?_ ?_ ?_ ?_
  all_goals simp [Job.Holds, List.range', r11, r12, r14, turn.r0, first, residual,
    v0, v1, v2, v3, v4, v5, v6, v7, Nat.add_assoc]

theorem order4_one (i : Nat) (s : State) (hi : i < job.len) (turn : job.FixedTurn 4 i s)
    (history : job.Holds [.r7, .r11, .r12, .r14] i s.reg) :
    ∃ t, execs ((Program.after .order4a fixedProgram).take 9) s = some t ∧
      job.FixedEnded 4 (i + 1) t ∧ job.Holds [.r7, .r11, .r12, .r14] (i + 1) t.reg := by
  simp only [Job.Holds, List.map_cons, List.map_nil, List.length_cons, List.length_nil,
    List.range', Nat.add_zero, Nat.reduceAdd, List.cons.injEq, and_true] at history
  obtain ⟨r7,r11,r12,r14⟩ := history
  obtain ⟨residual,_⟩ := turn.residuals (k := 1) hi (by decide)
  have value := turn.value4 0 hi
  have stored := turn.stored
  simp only [Nat.add_zero, Nat.zero_add] at value
  have past : ∀ k < 5, job.restored (i + 1) (addr job.base (i + k)) = job.word (i + k) := by
    intro k hk
    exact Job.restored_word hi (by rw [turn.order]; omega)
  refine ⟨_,rfl,turn.one hi ?_ ?_ ?_ ?_ ?_ ?_,?_⟩
  all_goals simp [Job.Holds, List.range', r7, r11, r12, r14, turn.r0, turn.r3, residual, value,
    stored, Nat.add_assoc, past]

theorem order4_block (i : Nat) (s : State) (room : i + 8 ≤ job.len)
    (turn : job.FixedTurn 4 i s) (history : job.Holds [.r7, .r11, .r12, .r14] i s.reg) :
    ∃ t, execs ((Program.after .order4b fixedProgram).take 44) s = some t ∧
      job.FixedEnded 4 (i + 8) t ∧ job.Holds [.r7, .r11, .r12, .r14] (i + 8) t.reg := by
  simp only [Job.Holds, List.map_cons, List.map_nil, List.length_cons, List.length_nil,
    List.range', Nat.add_zero, Nat.reduceAdd, List.cons.injEq, and_true] at history
  obtain ⟨r7,r11,r12,r14⟩ := history
  obtain ⟨first,residual⟩ := turn.residuals room (by decide)
  have v0 := turn.value4 0 (by omega)
  have v1 := turn.value4 1 (by omega)
  have v2 := turn.value4 2 (by omega)
  have v3 := turn.value4 3 (by omega)
  have v4 := turn.value4 4 (by omega)
  have v5 := turn.value4 5 (by omega)
  have v6 := turn.value4 6 (by omega)
  have v7 := turn.value4 7 (by omega)
  simp only [Nat.add_zero, Nat.reduceAdd] at v0 v1 v2 v3 v4 v5 v6 v7
  refine turn.block_history (order4b.take 42) [.r2, .r4, .r5, .r6, .r7, .r11, .r12, .r14] room (by decide)
    (by decide) rfl ?_ ?_ ?_ ?_ ?_ ?_
  all_goals simp [Job.Holds, List.range', r7, r11, r12, r14, turn.r0, first, residual,
    v0, v1, v2, v3, v4, v5, v6, v7, Nat.add_assoc]

theorem order0_value {i : Nat} (order : job.order = 0) (hi : i < job.len) :
    job.mem (addr job.residual i) = job.word i := by
  have h := Job.word_succ hi
  rw [job.predicts, order, Nat.zero_add] at h
  rw [h, fixedPrediction, add_zero]

theorem order0_one (i : Nat) (s : State) (hi : i < job.len) (turn : job.FixedTurn 0 i s)
    (history : job.Holds [] i s.reg) :
    ∃ t, execs ((Program.after .order0a fixedProgram).take 3) s = some t ∧
      job.FixedEnded 0 (i + 1) t ∧ job.Holds [] (i + 1) t.reg := by
  have value := (turn.residual (Nat.le_of_lt hi) hi).trans (order0_value turn.order hi)
  have stored := turn.stored
  refine ⟨_,rfl,turn.one hi ?_ ?_ ?_ ?_ ?_ ?_,history⟩
  all_goals simp [turn.r0, turn.r3, value]
  exact stored

theorem order0_half {i : Nat} {s : State} (order : job.order = 0) (room : i + 8 ≤ job.len)
    (r0 : s.reg .r0 = addr job.residual i) (r3 : s.reg .r3 = addr job.base i)
    (mem : s.mem = job.restored i) :
    ∃ t, execs (order0b.take 2) s = some t ∧ t.reg .r0 = addr job.residual (i + 8) ∧
      t.reg .r3 = addr job.base (i + 8) ∧ t.mem = job.restored (i + 8) ∧
      t.reg .r1 = s.reg .r1 ∧ t.reg .r13 = s.reg .r13 := by
  have copies : ∀ k < 8, s.mem (addr job.residual (i + k)) = job.word (i + k) := by
    intro k hk
    rw [mem, ← order0_value order (by omega)]
    exact restore_residual job.residual_apart (by omega) (by omega)
  have first := copies 0 (by decide)
  rw [Nat.add_zero] at first
  obtain ⟨t,run,values,pointer,place,same,r1,r13⟩ : ∃ t, execs (order0b.take 1) s = some t ∧
      job.Holds [.r5, .r6, .r7, .r8, .r9, .r10, .r11, .r12] i t.reg ∧
      t.reg .r0 = addr job.residual (i + 8) ∧ t.reg .r3 = addr job.base i ∧ t.mem = s.mem ∧
      t.reg .r1 = s.reg .r1 ∧ t.reg .r13 = s.reg .r13 := by
    refine ⟨_,rfl,?_,?_,?_,?_,?_,?_⟩
    all_goals simp [Job.Holds, List.range', r0, r3, first, copies]
  have stored : storeRegs t.reg (t.reg .r3) 0 [.r5, .r6, .r7, .r8, .r9, .r10, .r11, .r12] t.mem =
      job.restored (i + 8) := by
    rw [place, same, mem]
    have from_order : addr job.base i = addr job.base (i + job.order) := by rw [order, Nat.add_zero]
    rw [from_order]
    exact Job.storeRegs_restored (k := 0) (by rw [order]; exact values)
  refine ⟨_,(execs_append run).trans rfl,?_,?_,stored,?_,?_⟩
  all_goals simp [pointer, place, r1, r13]

theorem order0_block (i : Nat) (s : State) (room : i + 16 ≤ job.len) (turn : job.FixedTurn 0 i s)
    (history : job.Holds [] i s.reg) :
    ∃ t, execs ((Program.after .order0b fixedProgram).take 5) s = some t ∧
      job.FixedEnded 0 (i + 16) t ∧ job.Holds [] (i + 16) t.reg := by
  obtain ⟨t,run,r0,r3,mem,r1,r13⟩ :=
    order0_half turn.order (by omega) turn.r0 turn.r3 turn.mem
  obtain ⟨u,again,r0,r3,mem,r1',r13'⟩ := order0_half turn.order (by omega) r0 r3 mem
  have ended : ∀ v, execs (L := FixedLabel) [.subs .r1 .r1 (.imm 16)] u = some v →
      job.Ended (i + 16) v := by
    intro v count
    cases Option.some.inj count
    exact turn.advance (k := 16) room (by simpa using r0) (by simp [r1, r1']) (by simp [r1, r1'])
      (by simp [r13, r13']) mem
  refine ⟨_,(execs_append run).trans ((execs_append again).trans rfl),
    ⟨⟨(ended _ rfl).toTurn,turn.order,?_⟩,(ended _ rfl).z⟩,history⟩
  simp [r3]

theorem FixedTurn.warm {n : Nat} {s : State} (turn : job.FixedTurn n 0 s) :
    ∀ k < n, s.mem (addr job.base k) = job.word k := by
  intro k hk
  have h := turn.past (Nat.zero_le _) (k := k) (by rw [turn.order]; exact hk)
  rwa [Nat.zero_add] at h

theorem FixedTurn.carry {n i : Nat} {s t : State} (turn : job.FixedTurn n i s)
    (r0 : t.reg .r0 = s.reg .r0) (r1 : t.reg .r1 = s.reg .r1) (r3 : t.reg .r3 = s.reg .r3)
    (r13 : t.reg .r13 = s.reg .r13) (mem : t.mem = s.mem) : job.FixedTurn n i t :=
  ⟨⟨r0.trans turn.r0,r1.trans turn.r1,r13.trans turn.r13,mem.trans turn.mem⟩,turn.order,
    r3.trans turn.r3⟩

theorem order0_finishes {s : State} (turn : job.FixedTurn 0 0 s) (nonempty : 0 < job.len) :
    ∃ c, Steps fixedProgram (.running (Program.after .order0 fixedProgram) s) c ∧
      job.Finished c :=
  enters (k := 4) (e := 0) (job.Holds []) .order0a .order0b rfl
    (fun turn start here => loops rfl rfl order0_one order0_block nonempty turn start here)
    ⟨s,rfl,turn,rfl⟩

theorem order1_finishes {s : State} (turn : job.FixedTurn 1 0 s) (nonempty : 0 < job.len) :
    ∃ c, Steps fixedProgram (.running (Program.after .order1 fixedProgram) s) c ∧
      job.Finished c := by
  have warm := turn.warm
  have oldest := warm 0 (by decide)
  rw [addr_zero] at oldest
  refine enters (k := 3) (e := 1) (job.Holds [.r14]) .order1a .order1b rfl
    (fun turn start here => loops rfl rfl order1_one order1_block nonempty turn start here)
    ⟨_,rfl,turn.carry ?_ ?_ ?_ ?_ ?_,?_⟩
  all_goals simp [Job.Holds, turn.r3, oldest]

theorem order2_finishes {s : State} (turn : job.FixedTurn 2 0 s) (nonempty : 0 < job.len) :
    ∃ c, Steps fixedProgram (.running (Program.after .order2 fixedProgram) s) c ∧
      job.Finished c := by
  have warm := turn.warm
  have oldest := warm 0 (by decide)
  rw [addr_zero] at oldest
  refine enters (k := 3) (e := 1) (job.Holds [.r12, .r14]) .order2a .order2b rfl
    (fun turn start here => loops rfl rfl order2_one order2_block nonempty turn start here)
    ⟨_,rfl,turn.carry ?_ ?_ ?_ ?_ ?_,?_⟩
  all_goals simp [Job.Holds, List.range', turn.r3, oldest, warm]

theorem order3_finishes {s : State} (turn : job.FixedTurn 3 0 s) (nonempty : 0 < job.len) :
    ∃ c, Steps fixedProgram (.running (Program.after .order3 fixedProgram) s) c ∧
      job.Finished c := by
  have warm := turn.warm
  have oldest := warm 0 (by decide)
  rw [addr_zero] at oldest
  refine enters (k := 3) (e := 1) (job.Holds [.r11, .r12, .r14]) .order3a .order3b rfl
    (fun turn start here => loops rfl rfl order3_one order3_block nonempty turn start here)
    ⟨_,rfl,turn.carry ?_ ?_ ?_ ?_ ?_,?_⟩
  all_goals simp [Job.Holds, List.range', turn.r3, oldest, warm]

theorem order4_finishes {s : State} (turn : job.FixedTurn 4 0 s) (nonempty : 0 < job.len) :
    ∃ c, Steps fixedProgram (.running (Program.after .order4 fixedProgram) s) c ∧
      job.Finished c := by
  have warm := turn.warm
  have oldest := warm 0 (by decide)
  rw [addr_zero] at oldest
  refine enters (k := 3) (e := 1) (job.Holds [.r7, .r11, .r12, .r14]) .order4a .order4b rfl
    (fun turn start here => loops rfl rfl order4_one order4_block nonempty turn start here)
    ⟨_,rfl,turn.carry ?_ ?_ ?_ ?_ ?_,?_⟩
  all_goals simp [Job.Holds, List.range', turn.r3, oldest, warm]

end FixedJob

theorem fixedPrediction_looks {n : Nat} (small : n ≤ 4) : Looks n (fixedPrediction n) := by
  intro h h' same
  interval_cases n
  · rfl
  · exact same 0 (by decide)
  · simp only [fixedPrediction, same 0 (by decide), same 1 (by decide)]
  · simp only [fixedPrediction, same 0 (by decide), same 1 (by decide), same 2 (by decide)]
  · simp only [fixedPrediction, same 0 (by decide), same 1 (by decide), same 2 (by decide),
      same 3 (by decide)]

/-- All four arguments are in registers. -/
structure FixedCall extends Call where
  order_small : order ≤ 4
  r2 : state.reg .r2 = BitVec.ofNat 32 order
  r3 : state.reg .r3 = data

namespace FixedCall
variable (call : FixedCall)

def fixedJob : FixedJob where
  toJob := call.job (fixedPrediction call.order) (fixedPrediction_looks call.order_small)
  predicts := rfl

theorem prologue : ∃ t,
    execs ((Program.after .fixedRestoreSignalAsmArm fixedProgram).take 2) call.state = some t ∧
    call.fixedJob.FixedTurn call.order 0 t ∧ t.reg .r2 = BitVec.ofNat 32 call.order ∧
    Cond.ls.holds t = true := by
  have small := call.order_small
  refine ⟨_,rfl,⟨⟨?_,call.count,rfl,rfl⟩,rfl,call.r3.trans ?_⟩,call.r2,?_⟩
  · exact (addr_zero _).symm
  · change call.data = addr (below call.data call.order) (0 + call.order)
    rw [Nat.zero_add, addr_below _ (Nat.le_refl _), Nat.sub_self, addr_zero]
  · refine (cmp_ls _ _ _).trans ?_
    change decide (call.state.reg .r2 ≤ 4#32) = true
    rw [call.r2, decide_eq_true_iff, BitVec.le_def]
    simp only [BitVec.toNat_ofNat]
    omega

variable {call}

theorem selected_finishes {s : State} (turn : call.fixedJob.FixedTurn call.order 0 s)
    {l : FixedLabel} (entry : [FixedLabel.order0, .order1, .order2, .order3, .order4][call.order]? =
      some l) :
    ∃ c, Steps fixedProgram (.running (Program.after l fixedProgram) s) c ∧
      call.fixedJob.Finished c := by
  have small := call.order_small
  generalize call.order = n at turn small entry
  interval_cases n <;> cases Option.some.inj entry
  · exact FixedJob.order0_finishes turn call.nonempty
  · exact FixedJob.order1_finishes turn call.nonempty
  · exact FixedJob.order2_finishes turn call.nonempty
  · exact FixedJob.order3_finishes turn call.nonempty
  · exact FixedJob.order4_finishes turn call.nonempty

variable (call)

theorem finishes : ∃ c,
    Steps fixedProgram (.running (Program.after .fixedRestoreSignalAsmArm fixedProgram) call.state)
      c ∧ call.fixedJob.Finished c := by
  have small := call.order_small
  obtain ⟨t,run,turn,r2,ls⟩ := call.prologue
  have inside : call.order < [FixedLabel.order0, .order1, .order2, .order3, .order4].length :=
    Nat.lt_succ_of_le small
  have entry := List.getElem?_eq_getElem inside
  have same : (t.reg .r2).toNat = call.order := by
    rw [r2, BitVec.toNat_ofNat]
    omega
  obtain ⟨c,steps,done⟩ := selected_finishes turn entry
  have table : Steps fixedProgram
      (.running ((Program.after .fixedRestoreSignalAsmArm fixedProgram).drop 2) t) _ :=
    steps_jump (exec_table ls (by rw [same, entry]))
  exact ⟨c,((steps_take 2 run).trans table).trans steps,done⟩

end FixedCall

/-- The fixed predictors' recurrence holds of the words the call leaves behind, and
    outside data it touched only its own stack frame. -/
theorem fixedRestoreSignalAsmArm_restores (call : FixedCall) : ∃ t,
    Steps fixedProgram (.running (Program.after .fixedRestoreSignalAsmArm fixedProgram) call.state)
      (.returned (call.state.reg .r14) t) ∧
    (∀ i < call.len, t.mem (index call.data i) =
      call.state.mem (index (call.state.reg .r0) i) +
        fixedPrediction call.order fun j => t.mem (index call.data (i - j - 1))) ∧
    ∀ a, (∀ i < call.len, a ≠ index call.data i) →
      (∀ k < 10, a ≠ addr (below (call.state.reg .r13) 10) k) →
      t.mem a = call.state.mem a := by
  obtain ⟨c,steps,done⟩ := call.finishes
  obtain ⟨t,rfl,data,frame⟩ := call.finished_result done
  exact ⟨t,steps,data,frame⟩

/-- A call for two samples of order two: 5 + 2 * 7 - 4 and 1 + 2 * 15 - 7. -/
def twoSamples : FixedCall where
  state :=
    { reg := fun
        | .r0 => 0x2000#32
        | .r1 => 2#32
        | .r2 => 2#32
        | .r3 => 0x1008#32
        | .r13 => 0x8000#32
        | _ => 0#32
      mem := fun a =>
        if a = 0x1000#32 then 4#32 else if a = 0x1004#32 then 7#32
        else if a = 0x2000#32 then 5#32 else if a = 0x2004#32 then 1#32 else 0#32
      z := false
      c := false }
  order := 2
  len := 2
  data := 0x1008#32
  stacked := 0
  nonempty := by decide
  count := rfl
  samples := ⟨by decide,by decide⟩
  residual := ⟨by decide,by decide⟩
  stack := ⟨by decide,by decide⟩
  samples_residual := .inl (by decide)
  samples_stack := .inl (by decide)
  residual_stack := .inl (by decide)
  order_small := by decide
  r2 := rfl
  r3 := rfl

theorem fixedRestoreSignalAsmArm_two_samples : ∃ t,
    Steps fixedProgram
      (.running (Program.after .fixedRestoreSignalAsmArm fixedProgram) twoSamples.state)
      (.returned 0#32 t) ∧ t.mem 0x1008#32 = 15#32 ∧ t.mem 0x100c#32 = 24#32 := by
  obtain ⟨t,steps,data,frame⟩ := fixedRestoreSignalAsmArm_restores twoSamples
  have oldest : t.mem 0x1000#32 = 4#32 := frame 0x1000#32 (by decide) (by decide)
  have newest : t.mem 0x1004#32 = 7#32 := frame 0x1004#32 (by decide) (by decide)
  have first : t.mem 0x1008#32 = 5#32 + (2 * t.mem 0x1004#32 - t.mem 0x1000#32) :=
    data 0 (by decide)
  have second : t.mem 0x100c#32 = 1#32 + (2 * t.mem 0x1008#32 - t.mem 0x1004#32) :=
    data 1 (by decide)
  rw [oldest, newest] at first
  rw [first, newest] at second
  exact ⟨t,steps,first,second⟩

end FixedAsm
