import SqueezeOS.Arm.Rules
import Mathlib.Algebra.BigOperators.Group.Finset.Basic
import Mathlib.Algebra.BigOperators.Intervals

/- What the restorers of a FLAC subframe are for, over a memory of words: for each
   sample in turn, data[i] = residual[i] + a prediction from the words before it.
   `base` is the address of the first warm-up word, data[-order]. -/
namespace RestoreSignal
open Arm

section
variable (predict : (Nat → Word) → Word) (m : Mem) (base residual : Word) (order : Nat)

/-- The plain loop. The prediction of sample `i` is given data[i-1-j] at `j`. -/
def restore : Nat → Mem
  | 0 => m
  | i + 1 => Function.update (restore i) (addr base (order + i))
      (restore i (addr residual i) +
        predict fun j => restore i (addr base (i + (order - 1 - j))))

/-- The word `t` places after data[-order] once it has its final value. -/
def sample (t : Nat) : Word := restore predict m base residual order (t + 1 - order) (addr base t)

/-- A prediction of this order looks at `order` words of history only. -/
def Looks (order : Nat) (predict : (Nat → Word) → Word) : Prop :=
  ∀ h h' : Nat → Word, (∀ j < order, h j = h' j) → predict h = predict h'

end

section
variable {predict : (Nat → Word) → Word} {m : Mem} {base residual : Word} {order : Nat}

theorem restore_frame {i : Nat} {a : Word} (outside : ∀ k < i, a ≠ addr base (order + k)) :
    restore predict m base residual order i a = m a := by
  induction i with
  | zero => rfl
  | succ i ih =>
    rw [restore, Function.update_of_ne (outside i (by omega))]
    exact ih fun k hk => outside k (by omega)

theorem restore_data {i t : Nat} (small : order + i ≤ 2 ^ 30) (past : t < order + i) :
    restore predict m base residual order i (addr base t) =
      sample predict m base residual order t := by
  induction i with
  | zero =>
    have none : t + 1 - order = 0 := by omega
    rw [sample, none]
  | succ i ih =>
    by_cases last : t = order + i
    · have same : t + 1 - order = i + 1 := by omega
      rw [sample, same]
    · have ne : addr base t ≠ addr base (order + i) := fun same =>
        last (addr_injective base (by omega) (by omega) same)
      rw [restore, Function.update_of_ne ne]
      exact ih (by omega) (by omega)

theorem restore_succ {i : Nat} :
    restore predict m base residual order (i + 1) =
      Function.update (restore predict m base residual order i) (addr base (order + i))
        (sample predict m base residual order (order + i)) := by
  have same : order + i + 1 - order = i + 1 := by omega
  rw [sample, same]
  simp [restore]

def ApartFrom (base : Word) (order len : Nat) (other : Word) (words : Nat) : Prop :=
  ∀ i < len, ∀ k < words, addr other k ≠ addr base (order + i)

theorem restore_residual {len i k : Nat} (apart : ApartFrom base order len residual len)
    (hi : i ≤ len) (hk : k < len) :
    restore predict m base residual order i (addr residual k) = m (addr residual k) :=
  restore_frame fun j hj => apart j (by omega) k hk

theorem sample_succ {len i : Nat} (looks : Looks order predict)
    (small : order + len ≤ 2 ^ 30) (apart : ApartFrom base order len residual len) (hi : i < len) :
    sample predict m base residual order (order + i) = m (addr residual i) +
      predict fun j => sample predict m base residual order (i + (order - 1 - j)) := by
  have same : order + i + 1 - order = i + 1 := by omega
  rw [sample, same, restore, Function.update_self, restore_residual apart (by omega) hi]
  congr 1
  apply looks
  intro j hj
  exact restore_data (by omega) (by omega)

end

/- The registers all three restorers save on entry, and what their exit restores
   before it pops the return address. -/
def pushed : List Reg := [.r4, .r5, .r6, .r7, .r8, .r9, .r10, .r11, .r12, .r14]
def popped : List Reg := [.r4, .r5, .r6, .r7, .r8, .r9, .r10, .r11, .r12]

/-- A restoring job as it stands once the registers are saved in the frame `fp`:
    nothing the loop writes is a residual word or a word of that frame. -/
structure Job where
  order : Nat
  len : Nat
  predict : (Nat → Word) → Word
  mem : Mem
  base : Word
  residual : Word
  fp : Word
  looks : Looks order predict
  small : order + len ≤ 2 ^ 30
  residual_apart : ApartFrom base order len residual len
  frame_apart : ApartFrom base order len fp 10

namespace Job
variable (job : Job)

def restored (i : Nat) : Mem := restore job.predict job.mem job.base job.residual job.order i
def word (t : Nat) : Word := sample job.predict job.mem job.base job.residual job.order t

structure Turn (i : Nat) (s : State) : Prop where
  r0 : s.reg .r0 = addr job.residual i
  r1 : s.reg .r1 = BitVec.ofNat 32 (job.len - i)
  r13 : s.reg .r13 = job.fp
  mem : s.mem = job.restored i

structure Ended (i : Nat) (s : State) : Prop extends Turn job i s where
  z : s.z = decide (i = job.len)

def Finished {L : Type} (c : Config L) : Prop :=
  ∃ t, c = .returned (job.mem (addr job.fp 9)) t ∧ t.mem = job.restored job.len

def Holds (rs : List Reg) (n : Nat) (reg : Reg → Word) : Prop :=
  rs.map reg = (List.range' 0 rs.length).map fun t => job.word (n + t)

variable {job}

theorem word_succ {i : Nat} (hi : i < job.len) : job.word (job.order + i) =
    job.mem (addr job.residual i) + job.predict fun j => job.word (i + (job.order - 1 - j)) :=
  sample_succ job.looks job.small job.residual_apart hi

theorem update_restored {i : Nat} {v : Word} (value : v = job.word (job.order + i)) :
    Function.update (job.restored i) (addr job.base (job.order + i)) v = job.restored (i + 1) := by
  rw [value]
  exact restore_succ.symm

theorem storeRegs_restored {regs : Reg → Word} {rs : List Reg} {i k : Nat}
    (values : rs.map regs =
      (List.range' k rs.length).map fun t => job.word (i + job.order + t)) :
    storeRegs regs (addr job.base (i + job.order)) k rs (job.restored (i + k)) =
      job.restored (i + k + rs.length) := by
  induction rs generalizing k with
  | nil => rfl
  | cons r rs ih =>
    rw [List.length_cons, List.range'_succ, List.map_cons, List.map_cons, List.cons.injEq] at values
    have place : i + job.order + k = job.order + (i + k) := by omega
    have next := ih (k := k + 1) values.2
    have total : i + (k + 1) + rs.length = i + k + (r :: rs).length := by
      rw [List.length_cons]
      omega
    rw [place] at values
    rw [total] at next
    rw [storeRegs, addr_addr, place, update_restored values.1]
    exact next

theorem restored_word {i t : Nat} (hi : i ≤ job.len) (past : t < job.order + i) :
    job.restored i (addr job.base t) = job.word t := by
  have small := job.small
  exact restore_data (by omega) past

theorem Turn.past {i k : Nat} {s : State} (turn : job.Turn i s) (hi : i ≤ job.len)
    (hk : k < job.order) : s.mem (addr job.base (i + k)) = job.word (i + k) := by
  rw [turn.mem]
  have small := job.small
  exact restore_data (by omega) (by omega)

theorem Turn.residual {i k : Nat} {s : State} (turn : job.Turn i s) (hi : i ≤ job.len)
    (hk : k < job.len) : s.mem (addr job.residual k) = job.mem (addr job.residual k) := by
  rw [turn.mem]
  exact restore_residual job.residual_apart hi hk

theorem Turn.other {i k words : Nat} {s : State} {other : Word} (turn : job.Turn i s)
    (hi : i ≤ job.len) (apart : ApartFrom job.base job.order job.len other words)
    (hk : k < words) : s.mem (addr other k) = job.mem (addr other k) := by
  rw [turn.mem]
  exact restore_frame fun n hn => apart n (by omega) k hk

/-- What the code for `k` samples has to do to the state besides its own registers. -/
theorem Turn.advance {i k : Nat} {s t : State} (turn : job.Turn i s) (room : i + k ≤ job.len)
    (r0 : t.reg .r0 = addr job.residual (i + k)) (r1 : t.reg .r1 = s.reg .r1 - BitVec.ofNat 32 k)
    (z : t.z = (s.reg .r1 - BitVec.ofNat 32 k == 0#32)) (r13 : t.reg .r13 = s.reg .r13)
    (mem : t.mem = job.restored (i + k)) : job.Ended (i + k) t := by
  have small := job.small
  have count : s.reg .r1 - BitVec.ofNat 32 k = BitVec.ofNat 32 (job.len - (i + k)) := by
    rw [turn.r1, count_down (by omega), Nat.sub_sub]
  refine ⟨⟨r0,r1.trans count,r13.trans turn.r13,mem⟩,?_⟩
  rw [z, count, count_zero (by omega), decide_eq_decide]
  omega

theorem Turn.next {i : Nat} {s t : State} (turn : job.Turn i s) (hi : i < job.len)
    (r0 : t.reg .r0 = addr job.residual (i + 1)) (r1 : t.reg .r1 = s.reg .r1 - 1#32)
    (z : t.z = (s.reg .r1 - 1#32 == 0#32)) (r13 : t.reg .r13 = s.reg .r13)
    (mem : t.mem = Function.update s.mem (addr job.base (i + job.order))
      (job.word (i + job.order))) : job.Ended (i + 1) t := by
  refine turn.advance hi r0 r1 z r13 ?_
  rw [mem, turn.mem, Nat.add_comm i job.order]
  exact update_restored rfl

theorem Turn.pop {L : Type} {s : State} (turn : job.Turn job.len s) :
    ∃ t, exec (L := L) (.ldmfdPc .r13 popped) s = .ret (job.mem (addr job.fp 9)) t ∧
      t.mem = job.restored job.len := by
  have link : s.mem (addr (s.reg .r13) 9) = job.mem (addr job.fp 9) := by
    rw [turn.r13]
    exact turn.other (Nat.le_refl _) job.frame_apart (by decide)
  refine ⟨_,congrArg (fun pc => Outcome.ret pc _) link,?_⟩
  exact (loadRegs_mem _ _ _ _ _).trans turn.mem

section
variable {L : Type} [DecidableEq L] {p : Program L}

theorem Turn.pop_finishes (rest : List (Instr L)) {s : State} (turn : job.Turn job.len s) :
    ∃ c, Steps p (.running (.ldmfdPc .r13 popped :: rest) s) c ∧ job.Finished c := by
  obtain ⟨t,ret,mem⟩ := turn.pop (L := L)
  exact ⟨_,steps_return ret,t,rfl,mem⟩

theorem Ended.leave_or_continue (rest : List (Instr L)) {i : Nat} {s : State}
    (ended : job.Ended i s) :
    (∃ c, Steps p (.running (.when .eq (.ldmfdPc .r13 popped) :: rest) s) c ∧ job.Finished c) ∨
    i ≠ job.len ∧
      Steps p (.running (.when .eq (.ldmfdPc .r13 popped) :: rest) s) (.running rest s) := by
  by_cases last : i = job.len
  · left
    have z : Cond.eq.holds s = true := by simp [ended.z, last]
    subst last
    obtain ⟨t,ret,mem⟩ := ended.toTurn.pop (L := L)
    exact ⟨_,steps_return ((exec_when z).trans ret),t,rfl,mem⟩
  · right
    have z : Cond.eq.holds s = false := by simp [ended.z, last]
    exact ⟨last,steps_next (exec_unless z)⟩

theorem Ended.leave_or_repeat (head : L) (rest : List (Instr L)) {i : Nat} {s : State}
    (ended : job.Ended i s) :
    (∃ c, Steps p (.running (.when .ne (.b head) :: .ldmfdPc .r13 popped :: rest) s) c ∧
      job.Finished c) ∨
    i ≠ job.len ∧ Steps p (.running (.when .ne (.b head) :: .ldmfdPc .r13 popped :: rest) s)
      (.running (Program.after head p) s) := by
  by_cases last : i = job.len
  · left
    have z : Cond.ne.holds s = false := by simp [ended.z, last]
    subst last
    obtain ⟨c,steps,done⟩ := ended.toTurn.pop_finishes (p := p) rest
    exact ⟨c,(steps_next (exec_unless z)).trans steps,done⟩
  · right
    have z : Cond.ne.holds s = true := by simp [ended.z, last]
    exact ⟨last,steps_jump ((exec_when z).trans rfl)⟩

end

end Job

/-- data[k], also for a negative `k`. -/
def index (data : Word) (k : Int) : Word := data + BitVec.ofInt 32 (4 * k)

theorem index_ofNat (data : Word) (k : Nat) : index data k = addr data k := by
  unfold index addr
  congr 1

theorem index_past (data : Word) {order i j : Nat} (hj : j < order) :
    index data (i - j - 1) = addr (below data order) (i + (order - 1 - j)) := by
  obtain ⟨n,rfl⟩ := Nat.exists_eq_add_of_lt hj
  have back : j + n + 1 - 1 - j = n := by omega
  have split : 4 * ((i : Int) - j - 1) = ↑(4 * (i + n)) + -↑(4 * (j + n + 1)) := by
    push_cast
    ring
  rw [index, back, split, BitVec.ofInt_add, BitVec.ofInt_neg, BitVec.ofInt_natCast,
    BitVec.ofInt_natCast, addr, below]
  ring

theorem sum_oldest_first {R : Type} [CommSemiring R] (order : Nat) (words coeffs : Nat → R) :
    ∑ t ∈ Finset.range order, words t * coeffs (order - 1 - t) =
      ∑ j ∈ Finset.range order, coeffs j * words (order - 1 - j) := by
  rw [← Finset.sum_range_reflect]
  refine Finset.sum_congr rfl fun j member => ?_
  have inside := Finset.mem_range.mp member
  have back : order - 1 - (order - 1 - j) = j := by omega
  rw [back, mul_comm]

/-- A call of a restorer as its caller arranges it: the arrays do not overlap, and
    neither does the stack with the words the call pushes on it. -/
structure Call where
  state : State
  order : Nat
  len : Nat
  data : Word
  stacked : Nat
  nonempty : 1 ≤ len
  count : state.reg .r1 = BitVec.ofNat 32 len
  samples : Region (below data order) (order + len)
  residual : Region (state.reg .r0) len
  stack : Region (below (state.reg .r13) 10) (10 + stacked)
  samples_residual : Apart (below data order) (order + len) (state.reg .r0) len
  samples_stack : Apart (below data order) (order + len) (below (state.reg .r13) 10) (10 + stacked)
  residual_stack : Apart (state.reg .r0) len (below (state.reg .r13) 10) (10 + stacked)

namespace Call
variable (call : Call)

def base : Word := below call.data call.order
def fp : Word := below (call.state.reg .r13) 10
def saved : Mem := storeRegs call.state.reg call.fp 0 pushed call.state.mem

theorem small : call.order + call.len ≤ 2 ^ 30 := by
  have := call.samples.fits
  omega

def job (predict : (Nat → Word) → Word) (looks : Looks call.order predict) : Job where
  order := call.order
  len := call.len
  predict := predict
  mem := call.saved
  base := call.base
  residual := call.state.reg .r0
  fp := call.fp
  looks := looks
  small := call.small
  residual_apart := by
    intro i hi k hk
    exact (call.samples.addr_ne call.residual call.samples_residual (by omega) hk).symm
  frame_apart := by
    intro i hi k hk
    exact (call.samples.addr_ne call.stack call.samples_stack (by omega) (by omega)).symm

variable {call}

theorem saved_frame {a : Word} (outside : ∀ k < 10, a ≠ addr call.fp k) :
    call.saved a = call.state.mem a := by
  apply storeRegs_frame
  intro n hn
  rw [Nat.zero_add]
  exact outside n hn

theorem saved_link : call.saved (addr call.fp 9) = call.state.reg .r14 :=
  storeRegs_at call.state.reg call.fp pushed call.state.mem 0 9 (by decide) (by decide)

theorem saved_residual {i : Nat} (hi : i < call.len) :
    call.saved (addr (call.state.reg .r0) i) = call.state.mem (addr (call.state.reg .r0) i) := by
  apply saved_frame
  intro k hk
  exact call.residual.addr_ne call.stack call.residual_stack hi (by omega)

theorem base_data (i : Nat) : addr call.base (call.order + i) = index call.data i := by
  rw [index_ofNat, base, addr_below _ (by omega), Nat.add_sub_cancel_left]

theorem finished_result {L : Type} {predict : (Nat → Word) → Word}
    {looks : Looks call.order predict} {c : Config L} (done : (call.job predict looks).Finished c) :
    ∃ t, c = .returned (call.state.reg .r14) t ∧
      (∀ i < call.len, t.mem (index call.data i) =
        call.state.mem (index (call.state.reg .r0) i) +
          predict fun j => t.mem (index call.data (i - j - 1))) ∧
      ∀ a, (∀ i < call.len, a ≠ index call.data i) → (∀ k < 10, a ≠ addr call.fp k) →
        t.mem a = call.state.mem a := by
  obtain ⟨t,rfl,mem⟩ := done
  have small := call.small
  have final : ∀ n < call.order + call.len, t.mem (addr call.base n) =
      (call.job predict looks).word n := by
    intro n hn
    rw [mem]
    exact restore_data small hn
  refine ⟨t,congrArg (Config.returned · t) saved_link,?_,?_⟩
  · intro i hi
    rw [← base_data, final _ (by omega), index_ofNat, ← saved_residual hi]
    refine (Job.word_succ hi).trans (congrArg _ (looks _ _ ?_))
    intro j hj
    rw [index_past call.data hj]
    exact (final (i + (call.order - 1 - j)) (by omega)).symm
  · intro a data frame
    rw [mem, ← saved_frame frame]
    apply restore_frame
    intro k hk
    exact (base_data k).symm ▸ data k hk

end Call

end RestoreSignal
