import SqueezeOS.Flac.LpcAsm

/- The twelve specialised loops of FLAC__lpc_restore_signal_asm_arm. Each is run
   symbolically for one sample at a time; `Quad` and the structures after it say
   what a loop keeps in registers between two samples. -/
namespace LpcAsm
open Arm RestoreSignal

/-- The quantised linear prediction, in 32-bit wrap-around arithmetic. -/
def prediction (coeff : Nat → Word) (order shift : Nat) (h : Nat → Word) : Word :=
  (∑ j ∈ Finset.range order, coeff j * h j).sshiftRight shift

structure LpcJob extends Job where
  coeff : Word
  shift : Nat
  shift_small : shift ≤ 15
  coeff_apart : ApartFrom base order len coeff order
  predicts : predict = prediction (fun j => mem (addr coeff j)) order shift

namespace LpcJob
variable (job : LpcJob)

def q (j : Nat) : Word := job.mem (addr job.coeff j)

structure LpcTurn (n i : Nat) (s : State) : Prop extends job.Turn i s where
  order : job.order = n
  r5 : s.reg .r5 = BitVec.ofNat 32 job.shift

structure LpcEnded (n i : Nat) (s : State) : Prop extends job.LpcTurn n i s where
  z : s.z = decide (i = job.len)

variable {job}

theorem LpcEnded.ended {n i : Nat} {s : State} (h : job.LpcEnded n i s) : job.Ended i s :=
  ⟨h.toTurn,h.z⟩

theorem shift_mod : job.shift % 256 = job.shift := by
  have := job.shift_small
  omega

theorem LpcTurn.reads {n i : Nat} {s : State} (turn : job.LpcTurn n i s) (hi : i < job.len)
    (positive : 0 < n) : s.mem (addr job.base i) = job.word i ∧
    (∀ k < n, s.mem (addr job.base (i + k)) = job.word (i + k)) ∧
    s.mem job.coeff = job.q 0 ∧ (∀ k < n, s.mem (addr job.coeff k) = job.q k) ∧
    s.mem (addr job.residual i) = job.mem (addr job.residual i) := by
  have order := turn.order
  have past : ∀ k < n, s.mem (addr job.base (i + k)) = job.word (i + k) := by
    intro k hk
    exact turn.past (Nat.le_of_lt hi) (by omega)
  have coeff : ∀ k < n, s.mem (addr job.coeff k) = job.q k := by
    intro k hk
    exact turn.other (Nat.le_of_lt hi) job.coeff_apart (by omega)
  have leading := coeff 0 positive
  rw [addr_zero] at leading
  exact ⟨past 0 positive,past,leading,coeff,turn.residual (Nat.le_of_lt hi) hi⟩

theorem LpcTurn.made {n i : Nat} {s : State} {sum : Word} (turn : job.LpcTurn n i s)
    (hi : i < job.len)
    (same : sum = ∑ j ∈ Finset.range n, job.q j * job.word (i + (n - 1 - j))) :
    job.mem (addr job.residual i) + sum.sshiftRight job.shift = job.word (i + n) := by
  have h := Job.word_succ hi
  rw [job.predicts, turn.order, Nat.add_comm n i] at h
  rw [h, same]
  rfl

/-- What one sample's code has to do to the state besides its own registers. -/
theorem LpcTurn.next {n i : Nat} {s t : State} (turn : job.LpcTurn n i s)
    (hi : i < job.len) (r0 : t.reg .r0 = addr job.residual (i + 1))
    (r1 : t.reg .r1 = s.reg .r1 - 1#32) (z : t.z = (s.reg .r1 - 1#32 == 0#32))
    (r5 : t.reg .r5 = s.reg .r5) (r13 : t.reg .r13 = s.reg .r13)
    (mem : t.mem = Function.update s.mem (addr job.base (i + n)) (job.word (i + n))) :
    job.LpcEnded n (i + 1) t := by
  rw [← turn.order] at mem
  have ended := turn.toTurn.next hi r0 r1 z r13 mem
  exact ⟨⟨ended.toTurn,turn.order,r5.trans turn.r5⟩,ended.z⟩

section
variable {n : Nat} {label : Label} {a b : Nat} {rest : List (Instr Label)}
variable {keeps between : Nat → State → Prop}

theorem loop_by_one
    (bottom : (Program.after label program).drop a =
      .when .ne (.b label) :: .ldmfdPc .r13 popped :: rest)
    (round : ∀ i s, i < job.len → job.LpcTurn n i s → keeps i s →
      ∃ t, execs ((Program.after label program).take a) s = some t ∧
        job.LpcEnded n (i + 1) t ∧ keeps (i + 1) t)
    {s : State} (some : 0 < job.len) (turn : job.LpcTurn n 0 s) (start : keeps 0 s) :
    ∃ c, Steps program (.running (Program.after label program) s) c ∧ job.Finished c := by
  refine loop_finishes (fun i c => ∃ s, c = .running (Program.after label program) s ∧
    job.LpcTurn n i s ∧ keeps i s) ?_ 0 _ some ⟨s,rfl,turn,start⟩
  rintro i c hi ⟨s,rfl,turn,start⟩
  obtain ⟨t,run,ended,kept⟩ := round i s hi turn start
  have steps := steps_take (p := program) a run
  rw [bottom] at steps
  obtain ⟨c,leave,done⟩ | ⟨more,again⟩ :=
    ended.ended.leave_or_repeat (p := program) label rest
  · exact ⟨c,steps.trans leave,.inl done⟩
  · exact ⟨_,steps.trans again,.inr ⟨i + 1,by omega,by omega,t,rfl,ended.toLpcTurn,kept⟩⟩

/-- A loop that restores two samples a round and may return between them. -/
theorem loop_by_two
    (middle : (Program.after label program).drop a =
      .when .eq (.ldmfdPc .r13 popped) :: (Program.after label program).drop (a + 1))
    (bottom : ((Program.after label program).drop (a + 1)).drop b =
      .when .ne (.b label) :: .ldmfdPc .r13 popped :: rest)
    (first : ∀ i s, i < job.len → job.LpcTurn n i s → keeps i s →
      ∃ t, execs ((Program.after label program).take a) s = some t ∧
        job.LpcEnded n (i + 1) t ∧ between (i + 1) t)
    (second : ∀ i s, i < job.len → job.LpcTurn n i s → between i s →
      ∃ t, execs (((Program.after label program).drop (a + 1)).take b) s = some t ∧
        job.LpcEnded n (i + 1) t ∧ keeps (i + 1) t)
    {s : State} (some : 0 < job.len) (turn : job.LpcTurn n 0 s) (start : keeps 0 s) :
    ∃ c, Steps program (.running (Program.after label program) s) c ∧ job.Finished c := by
  refine loop_finishes (fun i c => ∃ s, job.LpcTurn n i s ∧
    (c = .running (Program.after label program) s ∧ keeps i s ∨
     c = .running ((Program.after label program).drop (a + 1)) s ∧ between i s))
    ?_ 0 _ some ⟨s,turn,.inl ⟨rfl,start⟩⟩
  rintro i c hi ⟨s,turn,⟨rfl,start⟩ | ⟨rfl,start⟩⟩
  · obtain ⟨t,run,ended,kept⟩ := first i s hi turn start
    have steps := steps_take (p := program) a run
    rw [middle] at steps
    obtain ⟨c,leave,done⟩ | ⟨more,again⟩ := ended.ended.leave_or_continue (p := program)
      ((Program.after label program).drop (a + 1))
    · exact ⟨c,steps.trans leave,.inl done⟩
    · exact ⟨_,steps.trans again,
        .inr ⟨i + 1,by omega,by omega,t,ended.toLpcTurn,.inr ⟨rfl,kept⟩⟩⟩
  · obtain ⟨t,run,ended,kept⟩ := second i s hi turn start
    have steps := steps_take (p := program) b run
    rw [bottom] at steps
    obtain ⟨c,leave,done⟩ | ⟨more,again⟩ :=
      ended.ended.leave_or_repeat (p := program) label rest
    · exact ⟨c,steps.trans leave,.inl done⟩
    · exact ⟨_,steps.trans again,
        .inr ⟨i + 1,by omega,by omega,t,ended.toLpcTurn,.inl ⟨rfl,kept⟩⟩⟩

end

variable (job)

/-- Orders 7 to 12 start a round with the first four coefficients at hand. -/
structure Quad (n i : Nat) (s : State) : Prop where
  r2 : s.reg .r2 = addr job.coeff 4
  r8 : s.reg .r8 = job.q 0
  r9 : s.reg .r9 = job.q 1
  r10 : s.reg .r10 = job.q 2
  r11 : s.reg .r11 = job.q 3
  r14 : s.reg .r14 = addr job.base (i + (n - 4))

structure Between12 (i : Nat) (s : State) : Prop where
  r2 : s.reg .r2 = addr job.coeff 8
  r8 : s.reg .r8 = job.q 8
  r9 : s.reg .r9 = job.q 9
  r10 : s.reg .r10 = job.q 10
  r11 : s.reg .r11 = job.q 11
  r14 : s.reg .r14 = addr job.base (i + 3)

structure Between11 (i : Nat) (s : State) : Prop where
  r2 : s.reg .r2 = addr job.coeff 8
  r4 : s.reg .r4 = job.word i
  r6 : s.reg .r6 = job.word (i + 1)
  r7 : s.reg .r7 = job.word (i + 2)
  r8 : s.reg .r8 = job.q 8
  r9 : s.reg .r9 = job.q 9
  r10 : s.reg .r10 = job.q 10
  r14 : s.reg .r14 = addr job.base (i + 2)

structure Between10 (i : Nat) (s : State) : Prop where
  r2 : s.reg .r2 = addr job.coeff 8
  r6 : s.reg .r6 = job.word i
  r7 : s.reg .r7 = job.word (i + 1)
  r8 : s.reg .r8 = job.q 8
  r9 : s.reg .r9 = job.q 9
  r14 : s.reg .r14 = addr job.base (i + 1)

structure Between9 (i : Nat) (s : State) : Prop where
  r2 : s.reg .r2 = addr job.coeff 8
  r7 : s.reg .r7 = job.word i
  r8 : s.reg .r8 = job.q 8
  r14 : s.reg .r14 = addr job.base i

structure Between8 (i : Nat) (s : State) : Prop where
  r2 : s.reg .r2 = addr job.coeff 4
  r8 : s.reg .r8 = job.q 4
  r9 : s.reg .r9 = job.q 5
  r10 : s.reg .r10 = job.q 6
  r11 : s.reg .r11 = job.q 7
  r14 : s.reg .r14 = addr job.base (i + 3)

structure Between7 (i : Nat) (s : State) : Prop where
  r2 : s.reg .r2 = addr job.coeff 4
  r4 : s.reg .r4 = job.word i
  r6 : s.reg .r6 = job.word (i + 1)
  r7 : s.reg .r7 = job.word (i + 2)
  r8 : s.reg .r8 = job.q 4
  r9 : s.reg .r9 = job.q 5
  r10 : s.reg .r10 = job.q 6
  r14 : s.reg .r14 = addr job.base (i + 2)

variable {job}

theorem order12_first (i : Nat) (s : State) (hi : i < job.len) (turn : job.LpcTurn 12 i s)
    (quad : job.Quad 12 i s) :
    ∃ t, execs ((Program.after .order12a program).take 21) s = some t ∧
      job.LpcEnded 12 (i + 1) t ∧ job.Between12 (i + 1) t := by
  obtain ⟨r2,r8,r9,r10,r11,r14⟩ := quad
  obtain ⟨oldest,past,leading,coeff,residual⟩ := turn.reads hi (by decide)
  refine ⟨_,rfl,turn.next hi ?_ ?_ ?_ ?_ ?_ ?_,?_,?_,?_,?_,?_,?_⟩
  all_goals simp [r2, r8, r9, r10, r11, r14, past, oldest, coeff, residual, turn.r0, turn.r5,
    shift_mod, Nat.add_assoc]
  exact congrArg _ (turn.made hi (by simp [Finset.sum_range_succ]; ring))

theorem order12_second (i : Nat) (s : State) (hi : i < job.len) (turn : job.LpcTurn 12 i s)
    (between : job.Between12 i s) :
    ∃ t, execs (((Program.after .order12a program).drop 22).take 23) s = some t ∧
      job.LpcEnded 12 (i + 1) t ∧ job.Quad 12 (i + 1) t := by
  obtain ⟨r2,r8,r9,r10,r11,r14⟩ := between
  obtain ⟨oldest,past,leading,coeff,residual⟩ := turn.reads hi (by decide)
  refine ⟨_,rfl,turn.next hi ?_ ?_ ?_ ?_ ?_ ?_,?_,?_,?_,?_,?_,?_⟩
  all_goals simp [r2, r8, r9, r10, r11, r14, past, oldest, coeff, leading, residual, turn.r0,
    turn.r5, shift_mod, Nat.add_assoc]
  exact congrArg _ (turn.made hi (by simp [Finset.sum_range_succ]; ring))

theorem order11_first (i : Nat) (s : State) (hi : i < job.len) (turn : job.LpcTurn 11 i s)
    (quad : job.Quad 11 i s) :
    ∃ t, execs ((Program.after .order11a program).take 20) s = some t ∧
      job.LpcEnded 11 (i + 1) t ∧ job.Between11 (i + 1) t := by
  obtain ⟨r2,r8,r9,r10,r11,r14⟩ := quad
  obtain ⟨oldest,past,leading,coeff,residual⟩ := turn.reads hi (by decide)
  refine ⟨_,rfl,turn.next hi ?_ ?_ ?_ ?_ ?_ ?_,?_,?_,?_,?_,?_,?_,?_,?_⟩
  all_goals simp [r2, r8, r9, r10, r11, r14, past, oldest, coeff, residual, turn.r0, turn.r5,
    shift_mod, Nat.add_assoc]
  exact congrArg _ (turn.made hi (by simp [Finset.sum_range_succ]; ring))

theorem order11_second (i : Nat) (s : State) (hi : i < job.len) (turn : job.LpcTurn 11 i s)
    (between : job.Between11 i s) :
    ∃ t, execs (((Program.after .order11a program).drop 21).take 21) s = some t ∧
      job.LpcEnded 11 (i + 1) t ∧ job.Quad 11 (i + 1) t := by
  obtain ⟨r2,r4,r6,r7,r8,r9,r10,r14⟩ := between
  obtain ⟨oldest,past,leading,coeff,residual⟩ := turn.reads hi (by decide)
  refine ⟨_,rfl,turn.next hi ?_ ?_ ?_ ?_ ?_ ?_,?_,?_,?_,?_,?_,?_⟩
  all_goals simp [r2, r4, r6, r7, r8, r9, r10, r14, past, coeff, leading, residual, turn.r0,
    turn.r5, shift_mod, Nat.add_assoc]
  exact congrArg _ (turn.made hi (by simp [Finset.sum_range_succ]; ring))

theorem order10_first (i : Nat) (s : State) (hi : i < job.len) (turn : job.LpcTurn 10 i s)
    (quad : job.Quad 10 i s) :
    ∃ t, execs ((Program.after .order10a program).take 19) s = some t ∧
      job.LpcEnded 10 (i + 1) t ∧ job.Between10 (i + 1) t := by
  obtain ⟨r2,r8,r9,r10,r11,r14⟩ := quad
  obtain ⟨oldest,past,leading,coeff,residual⟩ := turn.reads hi (by decide)
  refine ⟨_,rfl,turn.next hi ?_ ?_ ?_ ?_ ?_ ?_,?_,?_,?_,?_,?_,?_⟩
  all_goals simp [r2, r8, r9, r10, r11, r14, past, oldest, coeff, residual, turn.r0, turn.r5,
    shift_mod, Nat.add_assoc]
  exact congrArg _ (turn.made hi (by simp [Finset.sum_range_succ]; ring))

theorem order10_second (i : Nat) (s : State) (hi : i < job.len) (turn : job.LpcTurn 10 i s)
    (between : job.Between10 i s) :
    ∃ t, execs (((Program.after .order10a program).drop 20).take 20) s = some t ∧
      job.LpcEnded 10 (i + 1) t ∧ job.Quad 10 (i + 1) t := by
  obtain ⟨r2,r6,r7,r8,r9,r14⟩ := between
  obtain ⟨oldest,past,leading,coeff,residual⟩ := turn.reads hi (by decide)
  refine ⟨_,rfl,turn.next hi ?_ ?_ ?_ ?_ ?_ ?_,?_,?_,?_,?_,?_,?_⟩
  all_goals simp [r2, r6, r7, r8, r9, r14, past, coeff, leading, residual, turn.r0, turn.r5,
    shift_mod, Nat.add_assoc]
  exact congrArg _ (turn.made hi (by simp [Finset.sum_range_succ]; ring))

theorem order9_first (i : Nat) (s : State) (hi : i < job.len) (turn : job.LpcTurn 9 i s)
    (quad : job.Quad 9 i s) :
    ∃ t, execs ((Program.after .order9a program).take 18) s = some t ∧
      job.LpcEnded 9 (i + 1) t ∧ job.Between9 (i + 1) t := by
  obtain ⟨r2,r8,r9,r10,r11,r14⟩ := quad
  obtain ⟨oldest,past,leading,coeff,residual⟩ := turn.reads hi (by decide)
  refine ⟨_,rfl,turn.next hi ?_ ?_ ?_ ?_ ?_ ?_,?_,?_,?_,?_⟩
  all_goals simp [r2, r8, r9, r10, r11, r14, past, oldest, coeff, residual, turn.r0, turn.r5,
    shift_mod, Nat.add_assoc]
  exact congrArg _ (turn.made hi (by simp [Finset.sum_range_succ]; ring))

theorem order9_second (i : Nat) (s : State) (hi : i < job.len) (turn : job.LpcTurn 9 i s)
    (between : job.Between9 i s) :
    ∃ t, execs (((Program.after .order9a program).drop 19).take 19) s = some t ∧
      job.LpcEnded 9 (i + 1) t ∧ job.Quad 9 (i + 1) t := by
  obtain ⟨r2,r7,r8,r14⟩ := between
  obtain ⟨oldest,past,leading,coeff,residual⟩ := turn.reads hi (by decide)
  refine ⟨_,rfl,turn.next hi ?_ ?_ ?_ ?_ ?_ ?_,?_,?_,?_,?_,?_,?_⟩
  all_goals simp [r2, r7, r8, r14, past, coeff, leading, residual, turn.r0, turn.r5, shift_mod,
    Nat.add_assoc]
  exact congrArg _ (turn.made hi (by simp [Finset.sum_range_succ]; ring))

theorem order8_first (i : Nat) (s : State) (hi : i < job.len) (turn : job.LpcTurn 8 i s)
    (quad : job.Quad 8 i s) :
    ∃ t, execs ((Program.after .order8a program).take 15) s = some t ∧
      job.LpcEnded 8 (i + 1) t ∧ job.Between8 (i + 1) t := by
  obtain ⟨r2,r8,r9,r10,r11,r14⟩ := quad
  obtain ⟨oldest,past,leading,coeff,residual⟩ := turn.reads hi (by decide)
  refine ⟨_,rfl,turn.next hi ?_ ?_ ?_ ?_ ?_ ?_,?_,?_,?_,?_,?_,?_⟩
  all_goals simp [r2, r8, r9, r10, r11, r14, past, oldest, coeff, residual, turn.r0, turn.r5,
    shift_mod, Nat.add_assoc]
  exact congrArg _ (turn.made hi (by simp [Finset.sum_range_succ]; ring))

theorem order8_second (i : Nat) (s : State) (hi : i < job.len) (turn : job.LpcTurn 8 i s)
    (between : job.Between8 i s) :
    ∃ t, execs (((Program.after .order8a program).drop 16).take 17) s = some t ∧
      job.LpcEnded 8 (i + 1) t ∧ job.Quad 8 (i + 1) t := by
  obtain ⟨r2,r8,r9,r10,r11,r14⟩ := between
  obtain ⟨oldest,past,leading,coeff,residual⟩ := turn.reads hi (by decide)
  refine ⟨_,rfl,turn.next hi ?_ ?_ ?_ ?_ ?_ ?_,?_,?_,?_,?_,?_,?_⟩
  all_goals simp [r2, r8, r9, r10, r11, r14, past, oldest, coeff, leading, residual, turn.r0,
    turn.r5, shift_mod, Nat.add_assoc]
  exact congrArg _ (turn.made hi (by simp [Finset.sum_range_succ]; ring))

theorem order7_first (i : Nat) (s : State) (hi : i < job.len) (turn : job.LpcTurn 7 i s)
    (quad : job.Quad 7 i s) :
    ∃ t, execs ((Program.after .order7a program).take 14) s = some t ∧
      job.LpcEnded 7 (i + 1) t ∧ job.Between7 (i + 1) t := by
  obtain ⟨r2,r8,r9,r10,r11,r14⟩ := quad
  obtain ⟨oldest,past,leading,coeff,residual⟩ := turn.reads hi (by decide)
  refine ⟨_,rfl,turn.next hi ?_ ?_ ?_ ?_ ?_ ?_,?_,?_,?_,?_,?_,?_,?_,?_⟩
  all_goals simp [r2, r8, r9, r10, r11, r14, past, oldest, coeff, residual, turn.r0, turn.r5,
    shift_mod, Nat.add_assoc]
  exact congrArg _ (turn.made hi (by simp [Finset.sum_range_succ]; ring))

theorem order7_second (i : Nat) (s : State) (hi : i < job.len) (turn : job.LpcTurn 7 i s)
    (between : job.Between7 i s) :
    ∃ t, execs (((Program.after .order7a program).drop 15).take 15) s = some t ∧
      job.LpcEnded 7 (i + 1) t ∧ job.Quad 7 (i + 1) t := by
  obtain ⟨r2,r4,r6,r7,r8,r9,r10,r14⟩ := between
  obtain ⟨oldest,past,leading,coeff,residual⟩ := turn.reads hi (by decide)
  refine ⟨_,rfl,turn.next hi ?_ ?_ ?_ ?_ ?_ ?_,?_,?_,?_,?_,?_,?_⟩
  all_goals simp [r2, r4, r6, r7, r8, r9, r10, r14, past, coeff, leading, residual, turn.r0,
    turn.r5, shift_mod, Nat.add_assoc]
  exact congrArg _ (turn.made hi (by simp [Finset.sum_range_succ]; ring))

variable (job)

structure Keeps6 (i : Nat) (s : State) : Prop where
  r6 : s.reg .r6 = job.q 0
  r7 : s.reg .r7 = job.q 1
  r8 : s.reg .r8 = job.q 2
  r9 : s.reg .r9 = job.q 3
  r10 : s.reg .r10 = job.q 4
  r11 : s.reg .r11 = job.q 5
  r14 : s.reg .r14 = addr job.base (i + 3)

structure Keeps5 (i : Nat) (s : State) : Prop where
  r6 : s.reg .r6 = job.q 0
  r7 : s.reg .r7 = job.q 1
  r8 : s.reg .r8 = job.q 2
  r9 : s.reg .r9 = job.q 3
  r10 : s.reg .r10 = job.q 4
  r12 : s.reg .r12 = job.word (i + 4)
  r14 : s.reg .r14 = addr job.base (i + 4)

structure Keeps4 (i : Nat) (s : State) : Prop where
  r6 : s.reg .r6 = job.q 0
  r7 : s.reg .r7 = job.q 1
  r8 : s.reg .r8 = job.q 2
  r9 : s.reg .r9 = job.q 3
  r14 : s.reg .r14 = addr job.base (i + 4)

structure Keeps3 (i : Nat) (s : State) : Prop where
  r6 : s.reg .r6 = job.q 0
  r7 : s.reg .r7 = job.q 1
  r8 : s.reg .r8 = job.q 2
  r14 : s.reg .r14 = addr job.base (i + 3)

structure Keeps2 (i : Nat) (s : State) : Prop where
  r2 : s.reg .r2 = job.word i
  r3 : s.reg .r3 = job.word (i + 1)
  r6 : s.reg .r6 = job.q 0
  r7 : s.reg .r7 = job.q 1
  r14 : s.reg .r14 = addr job.base (i + 2)

structure Keeps1 (i : Nat) (s : State) : Prop where
  r3 : s.reg .r3 = job.word i
  r6 : s.reg .r6 = job.q 0
  r14 : s.reg .r14 = addr job.base (i + 1)

variable {job}

theorem order6_round (i : Nat) (s : State) (hi : i < job.len) (turn : job.LpcTurn 6 i s)
    (keeps : job.Keeps6 i s) :
    ∃ t, execs ((Program.after .order6a program).take 13) s = some t ∧
      job.LpcEnded 6 (i + 1) t ∧ job.Keeps6 (i + 1) t := by
  obtain ⟨r6,r7,r8,r9,r10,r11,r14⟩ := keeps
  obtain ⟨oldest,past,leading,coeff,residual⟩ := turn.reads hi (by decide)
  refine ⟨_,rfl,turn.next hi ?_ ?_ ?_ ?_ ?_ ?_,?_,?_,?_,?_,?_,?_,?_⟩
  all_goals simp [r6, r7, r8, r9, r10, r11, r14, past, oldest, residual, turn.r0, turn.r5,
    shift_mod, Nat.add_assoc]
  exact congrArg _ (turn.made hi (by simp [Finset.sum_range_succ]; ring))

theorem order5_round (i : Nat) (s : State) (hi : i < job.len) (turn : job.LpcTurn 5 i s)
    (keeps : job.Keeps5 i s) :
    ∃ t, execs ((Program.after .order5a program).take 10) s = some t ∧
      job.LpcEnded 5 (i + 1) t ∧ job.Keeps5 (i + 1) t := by
  obtain ⟨r6,r7,r8,r9,r10,r12,r14⟩ := keeps
  obtain ⟨oldest,past,leading,coeff,residual⟩ := turn.reads hi (by decide)
  refine ⟨_,rfl,turn.next hi ?_ ?_ ?_ ?_ ?_ ?_,?_,?_,?_,?_,?_,?_,?_⟩
  all_goals simp [r6, r7, r8, r9, r10, r12, r14, past, oldest, residual, turn.r0, turn.r5,
    shift_mod, Nat.add_assoc]
  · exact congrArg _ (turn.made hi (by simp [Finset.sum_range_succ]; ring))
  · exact turn.made hi (by simp [Finset.sum_range_succ]; ring)

theorem order4_round (i : Nat) (s : State) (hi : i < job.len) (turn : job.LpcTurn 4 i s)
    (keeps : job.Keeps4 i s) :
    ∃ t, execs ((Program.after .order4a program).take 9) s = some t ∧
      job.LpcEnded 4 (i + 1) t ∧ job.Keeps4 (i + 1) t := by
  obtain ⟨r6,r7,r8,r9,r14⟩ := keeps
  obtain ⟨oldest,past,leading,coeff,residual⟩ := turn.reads hi (by decide)
  refine ⟨_,rfl,turn.next hi ?_ ?_ ?_ ?_ ?_ ?_,?_,?_,?_,?_,?_⟩
  all_goals simp [r6, r7, r8, r9, r14, past, oldest, residual, turn.r0, turn.r5, shift_mod,
    Nat.add_assoc]
  exact congrArg _ (turn.made hi (by simp [Finset.sum_range_succ]; ring))

theorem order3_round (i : Nat) (s : State) (hi : i < job.len) (turn : job.LpcTurn 3 i s)
    (keeps : job.Keeps3 i s) :
    ∃ t, execs ((Program.after .order3a program).take 8) s = some t ∧
      job.LpcEnded 3 (i + 1) t ∧ job.Keeps3 (i + 1) t := by
  obtain ⟨r6,r7,r8,r14⟩ := keeps
  obtain ⟨oldest,past,leading,coeff,residual⟩ := turn.reads hi (by decide)
  refine ⟨_,rfl,turn.next hi ?_ ?_ ?_ ?_ ?_ ?_,?_,?_,?_,?_⟩
  all_goals simp [r6, r7, r8, r14, past, oldest, residual, turn.r0, turn.r5, shift_mod,
    Nat.add_assoc]
  exact congrArg _ (turn.made hi (by simp [Finset.sum_range_succ]; ring))

theorem order2_round (i : Nat) (s : State) (hi : i < job.len) (turn : job.LpcTurn 2 i s)
    (keeps : job.Keeps2 i s) :
    ∃ t, execs ((Program.after .order2a program).take 7) s = some t ∧
      job.LpcEnded 2 (i + 1) t ∧ job.Keeps2 (i + 1) t := by
  obtain ⟨r2,r3,r6,r7,r14⟩ := keeps
  obtain ⟨oldest,past,leading,coeff,residual⟩ := turn.reads hi (by decide)
  refine ⟨_,rfl,turn.next hi ?_ ?_ ?_ ?_ ?_ ?_,?_,?_,?_,?_,?_⟩
  all_goals simp [r2, r3, r6, r7, r14, past, residual, turn.r0, turn.r5, shift_mod, Nat.add_assoc]
  · exact congrArg _ (turn.made hi (by simp [Finset.sum_range_succ]; ring))
  · exact turn.made hi (by simp [Finset.sum_range_succ]; ring)

theorem order1_round (i : Nat) (s : State) (hi : i < job.len) (turn : job.LpcTurn 1 i s)
    (keeps : job.Keeps1 i s) :
    ∃ t, execs ((Program.after .order1a program).take 5) s = some t ∧
      job.LpcEnded 1 (i + 1) t ∧ job.Keeps1 (i + 1) t := by
  obtain ⟨r3,r6,r14⟩ := keeps
  obtain ⟨oldest,past,leading,coeff,residual⟩ := turn.reads hi (by decide)
  refine ⟨_,rfl,turn.next hi ?_ ?_ ?_ ?_ ?_ ?_,?_,?_,?_⟩
  all_goals simp [r3, r6, r14, residual, turn.r0, turn.r5, shift_mod, Nat.add_assoc]
  · exact congrArg _ (turn.made hi (by simp))
  · exact turn.made hi (by simp)

variable (job)

structure Entered (n : Nat) (s : State) : Prop extends job.LpcTurn n 0 s where
  positive : 0 < n
  nonempty : 0 < job.len
  r2 : s.reg .r2 = job.coeff
  r14 : s.reg .r14 = addr job.base n

variable {job}

theorem LpcTurn.carry {n i : Nat} {s t : State} (turn : job.LpcTurn n i s)
    (r0 : t.reg .r0 = s.reg .r0) (r1 : t.reg .r1 = s.reg .r1) (r5 : t.reg .r5 = s.reg .r5)
    (r13 : t.reg .r13 = s.reg .r13) (mem : t.mem = s.mem) : job.LpcTurn n i t :=
  ⟨⟨r0.trans turn.r0,r1.trans turn.r1,r13.trans turn.r13,mem.trans turn.mem⟩,turn.order,
    r5.trans turn.r5⟩

theorem Entered.reads {n : Nat} {s : State} (enter : job.Entered n s) :
    s.mem job.base = job.word 0 ∧ (∀ k < n, s.mem (addr job.base k) = job.word k) ∧
    s.mem job.coeff = job.q 0 ∧ ∀ k < n, s.mem (addr job.coeff k) = job.q k := by
  obtain ⟨oldest,past,leading,coeff,_⟩ := enter.toLpcTurn.reads enter.nonempty enter.positive
  rw [addr_zero] at oldest
  refine ⟨oldest,?_,leading,coeff⟩
  intro k hk
  simpa using past k hk

theorem enter_loop {n k : Nat} {entry head : Label} {keeps : Nat → State → Prop} {s : State}
    (falls : (Program.after entry program).drop k = Program.after head program)
    (load : ∃ t, execs ((Program.after entry program).take k) s = some t ∧
      job.LpcTurn n 0 t ∧ keeps 0 t)
    (loop : ∀ {t : State}, job.LpcTurn n 0 t → keeps 0 t →
      ∃ c, Steps program (.running (Program.after head program) t) c ∧ job.Finished c) :
    ∃ c, Steps program (.running (Program.after entry program) s) c ∧ job.Finished c := by
  obtain ⟨t,run,turn,start⟩ := load
  obtain ⟨c,steps,done⟩ := loop turn start
  have first := steps_take (p := program) k run
  rw [falls] at first
  exact ⟨c,first.trans steps,done⟩

theorem Entered.quad {n : Nat} {s : State} (enter : job.Entered n s) (large : 4 < n) :
    ∃ t, execs order12 s = some t ∧ job.LpcTurn n 0 t ∧ job.Quad n 0 t := by
  obtain ⟨oldest,past,leading,coeff⟩ := enter.reads
  obtain ⟨turn,positive,nonempty,r2,r14⟩ := enter
  have one := coeff 1 (by omega)
  have two := coeff 2 (by omega)
  have three := coeff 3 (by omega)
  have back := addr_sub job.base (m := n) (n := 16) rfl (by omega)
  refine ⟨_,rfl,turn.carry ?_ ?_ ?_ ?_ ?_,?_,?_,?_,?_,?_,?_⟩
  all_goals simp [r2, r14, leading, one, two, three, back]

theorem order12_finishes {s : State} (enter : job.Entered 12 s) :
    ∃ c, Steps program (.running (Program.after .order12 program) s) c ∧ job.Finished c :=
  enter_loop (k := 2) rfl (enter.quad (by decide))
    (loop_by_two rfl rfl order12_first order12_second enter.nonempty)

theorem order11_finishes {s : State} (enter : job.Entered 11 s) :
    ∃ c, Steps program (.running (Program.after .order11 program) s) c ∧ job.Finished c :=
  enter_loop (k := 2) rfl (enter.quad (by decide))
    (loop_by_two rfl rfl order11_first order11_second enter.nonempty)

theorem order10_finishes {s : State} (enter : job.Entered 10 s) :
    ∃ c, Steps program (.running (Program.after .order10 program) s) c ∧ job.Finished c :=
  enter_loop (k := 2) rfl (enter.quad (by decide))
    (loop_by_two rfl rfl order10_first order10_second enter.nonempty)

theorem order9_finishes {s : State} (enter : job.Entered 9 s) :
    ∃ c, Steps program (.running (Program.after .order9 program) s) c ∧ job.Finished c :=
  enter_loop (k := 2) rfl (enter.quad (by decide))
    (loop_by_two rfl rfl order9_first order9_second enter.nonempty)

theorem order8_finishes {s : State} (enter : job.Entered 8 s) :
    ∃ c, Steps program (.running (Program.after .order8 program) s) c ∧ job.Finished c :=
  enter_loop (k := 2) rfl (enter.quad (by decide))
    (loop_by_two rfl rfl order8_first order8_second enter.nonempty)

theorem order7_finishes {s : State} (enter : job.Entered 7 s) :
    ∃ c, Steps program (.running (Program.after .order7 program) s) c ∧ job.Finished c :=
  enter_loop (k := 2) rfl (enter.quad (by decide))
    (loop_by_two rfl rfl order7_first order7_second enter.nonempty)

theorem order6_finishes {s : State} (enter : job.Entered 6 s) :
    ∃ c, Steps program (.running (Program.after .order6 program) s) c ∧ job.Finished c := by
  obtain ⟨oldest,past,leading,coeff⟩ := enter.reads
  obtain ⟨turn,positive,nonempty,r2,r14⟩ := enter
  refine enter_loop (k := 2) rfl ⟨_,rfl,turn.carry ?_ ?_ ?_ ?_ ?_,?_,?_,?_,?_,?_,?_,?_⟩
    (loop_by_one rfl order6_round nonempty)
  all_goals simp [r2, r14, leading, coeff]

theorem order5_finishes {s : State} (enter : job.Entered 5 s) :
    ∃ c, Steps program (.running (Program.after .order5 program) s) c ∧ job.Finished c := by
  obtain ⟨oldest,past,leading,coeff⟩ := enter.reads
  obtain ⟨turn,positive,nonempty,r2,r14⟩ := enter
  refine enter_loop (k := 2) rfl ⟨_,rfl,turn.carry ?_ ?_ ?_ ?_ ?_,?_,?_,?_,?_,?_,?_,?_⟩
    (loop_by_one rfl order5_round nonempty)
  all_goals simp [r2, r14, leading, coeff, past]

theorem order4_finishes {s : State} (enter : job.Entered 4 s) :
    ∃ c, Steps program (.running (Program.after .order4 program) s) c ∧ job.Finished c := by
  obtain ⟨oldest,past,leading,coeff⟩ := enter.reads
  obtain ⟨turn,positive,nonempty,r2,r14⟩ := enter
  refine enter_loop (k := 1) rfl ⟨_,rfl,turn.carry ?_ ?_ ?_ ?_ ?_,?_,?_,?_,?_,?_⟩
    (loop_by_one rfl order4_round nonempty)
  all_goals simp [r2, r14, leading, coeff]

theorem order3_finishes {s : State} (enter : job.Entered 3 s) :
    ∃ c, Steps program (.running (Program.after .order3 program) s) c ∧ job.Finished c := by
  obtain ⟨oldest,past,leading,coeff⟩ := enter.reads
  obtain ⟨turn,positive,nonempty,r2,r14⟩ := enter
  refine enter_loop (k := 1) rfl ⟨_,rfl,turn.carry ?_ ?_ ?_ ?_ ?_,?_,?_,?_,?_⟩
    (loop_by_one rfl order3_round nonempty)
  all_goals simp [r2, r14, leading, coeff]

theorem order2_finishes {s : State} (enter : job.Entered 2 s) :
    ∃ c, Steps program (.running (Program.after .order2 program) s) c ∧ job.Finished c := by
  obtain ⟨oldest,past,leading,coeff⟩ := enter.reads
  obtain ⟨turn,positive,nonempty,r2,r14⟩ := enter
  refine enter_loop (k := 2) rfl ⟨_,rfl,turn.carry ?_ ?_ ?_ ?_ ?_,?_,?_,?_,?_,?_⟩
    (loop_by_one rfl order2_round nonempty)
  all_goals simp [r2, r14, leading, coeff, past, oldest]

theorem order1_finishes {s : State} (enter : job.Entered 1 s) :
    ∃ c, Steps program (.running (Program.after .order1 program) s) c ∧ job.Finished c := by
  obtain ⟨oldest,past,leading,coeff⟩ := enter.reads
  obtain ⟨turn,positive,nonempty,r2,r14⟩ := enter
  refine enter_loop (k := 2) rfl ⟨_,rfl,turn.carry ?_ ?_ ?_ ?_ ?_,?_,?_,?_⟩
    (loop_by_one rfl order1_round nonempty)
  all_goals simp [r2, r14, leading, oldest]

end LpcJob
end LpcAsm
