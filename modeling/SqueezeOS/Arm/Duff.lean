import SqueezeOS.Arm.Rules
import Mathlib.Tactic.IntervalCases

/- A Duff's device unrolled over pairs. The entries for an even remainder run into
   one another and then into a counted loop of four pairs; those for an odd
   remainder run into a single term and then join the same loop. -/
namespace Arm

structure Duff {L : Type} [DecidableEq L] (p : Program L) where
  even : Nat → L
  odd : Nat → L
  pair : List (Instr L)
  single : List (Instr L)
  counter : Reg
  evenEnd : List (Instr L)
  oddEnd : List (Instr L)
  even_code : ∀ k, 1 ≤ k → k ≤ 4 → Program.after (even k) p =
    (List.replicate k pair).flatten ++
      .subs counter counter (.imm 1) :: .when .ne (.b (even 4)) :: evenEnd
  odd_code : ∀ k ≤ 3, Program.after (odd k) p =
    (List.replicate k pair).flatten ++ (single ++
      .subs counter counter (.imm 1) :: .when .ne (.b (even 4)) :: oddEnd)

namespace Duff
variable {L : Type} [DecidableEq L] {p : Program L} (d : Duff p)

def table : List L :=
  [d.even 4, d.odd 0, d.even 1, d.odd 1, d.even 2, d.odd 2, d.even 3, d.odd 3]

/-- `acc m n` says that `m` of the `terms` are summed and the counter stands at `n`. -/
structure Adds (terms : Nat) (acc : Nat → Nat → State → Prop) : Prop where
  pair : ∀ m n s, m + 2 ≤ terms → acc m n s → ∃ t, execs d.pair s = some t ∧ acc (m + 2) n t
  single : ∀ m n s, m + 1 ≤ terms → acc m n s →
    ∃ t, execs d.single s = some t ∧ acc (m + 1) n t
  count : ∀ m n s, acc m (n + 1) s →
    ∃ t, exec (L := L) (.subs d.counter d.counter (.imm 1)) s = .next t ∧
      acc m n t ∧ t.z = decide (n = 0)

variable {d} {terms : Nat} {acc : Nat → Nat → State → Prop}

theorem Adds.pairs (adds : d.Adds terms acc) (rest : List (Instr L)) (k : Nat) {m n : Nat}
    {s : State} (room : m + 2 * k ≤ terms) (start : acc m n s) :
    ∃ t, Steps p (.running ((List.replicate k d.pair).flatten ++ rest) s) (.running rest t) ∧
      acc (m + 2 * k) n t := by
  induction k generalizing m s with
  | zero => exact ⟨s,.refl,start⟩
  | succ k ih =>
    obtain ⟨t,run,more⟩ := adds.pair m n s (by omega) start
    obtain ⟨u,steps,done⟩ := ih (by omega) more
    have first := steps_execs (p := p) ((List.replicate k d.pair).flatten ++ rest) run
    rw [← List.append_assoc] at first
    have total : m + 2 + 2 * k = m + 2 * (k + 1) := by omega
    rw [total] at done
    exact ⟨u,first.trans steps,done⟩

theorem Adds.bottom (adds : d.Adds terms acc) (rest : List (Instr L)) {m n : Nat} {s : State}
    (start : acc m (n + 1) s) : ∃ t, acc m n t ∧
      Steps p (.running (.subs d.counter d.counter (.imm 1) :: .when .ne (.b (d.even 4)) :: rest) s)
        (if n = 0 then .running rest t else .running (Program.after (d.even 4) p) t) := by
  obtain ⟨t,down,counted,z⟩ := adds.count m n s start
  refine ⟨t,counted,(steps_next down).trans ?_⟩
  by_cases last : n = 0
  · have flag : Cond.ne.holds t = false := by simp [z, last]
    rw [if_pos last]
    exact steps_next (exec_unless flag)
  · have flag : Cond.ne.holds t = true := by simp [z, last]
    rw [if_neg last]
    exact steps_jump ((exec_when flag).trans rfl)

theorem Adds.evens (adds : d.Adds terms acc) (n : Nat) {k m : Nat} {s : State} (low : 1 ≤ k)
    (high : k ≤ 4) (whole : m + 2 * k + 8 * n = terms) (start : acc m (n + 1) s) :
    ∃ t, Steps p (.running (Program.after (d.even k) p) s) (.running d.evenEnd t) ∧
      acc terms 0 t := by
  induction n generalizing k m s with
  | zero =>
    rw [d.even_code k low high]
    obtain ⟨t,pairs,summed⟩ := adds.pairs _ k (by omega) start
    obtain ⟨u,counted,down⟩ := adds.bottom d.evenEnd summed
    rw [if_pos rfl] at down
    rw [show m + 2 * k = terms by omega] at counted
    exact ⟨u,pairs.trans down,counted⟩
  | succ n ih =>
    rw [d.even_code k low high]
    obtain ⟨t,pairs,summed⟩ := adds.pairs _ k (by omega) start
    obtain ⟨u,counted,down⟩ := adds.bottom d.evenEnd summed
    rw [if_neg (Nat.succ_ne_zero n)] at down
    obtain ⟨v,again,done⟩ := ih (by decide) (Nat.le_refl 4) (by omega) counted
    exact ⟨v,(pairs.trans down).trans again,done⟩

theorem Adds.odds (adds : d.Adds terms acc) (n : Nat) {k : Nat} {s : State} (high : k ≤ 3)
    (whole : 2 * k + 1 + 8 * n = terms) (start : acc 0 (n + 1) s) :
    ∃ c t, Steps p (.running (Program.after (d.odd k) p) s) (.running c t) ∧
      (c = d.evenEnd ∨ c = d.oddEnd) ∧ acc terms 0 t := by
  rw [d.odd_code k high]
  obtain ⟨t,pairs,summed⟩ := adds.pairs _ k (by omega) start
  obtain ⟨u,run,single⟩ := adds.single _ _ t (by omega) summed
  obtain ⟨v,counted,down⟩ := adds.bottom d.oddEnd single
  have entered := (pairs.trans (steps_execs _ run)).trans down
  cases n with
  | zero =>
    rw [if_pos rfl] at entered
    rw [show 0 + 2 * k + 1 = terms by omega] at counted
    exact ⟨d.oddEnd,v,entered,.inr rfl,counted⟩
  | succ n =>
    rw [if_neg (Nat.succ_ne_zero n)] at entered
    obtain ⟨w,again,done⟩ := adds.evens n (by decide) (Nat.le_refl 4) (by omega) counted
    exact ⟨d.evenEnd,w,entered.trans again,.inl rfl,done⟩

/-- The entry for the remainder of the number of terms, with the counter at the
    number of rounds, sums all of them. -/
theorem Adds.device (adds : d.Adds terms acc) (positive : 0 < terms) {s : State}
    (start : acc 0 ((terms + 7) / 8) s) :
    ∃ l c t, d.table[terms % 8]? = some l ∧
      Steps p (.running (Program.after l p) s) (.running c t) ∧
      (c = d.evenEnd ∨ c = d.oddEnd) ∧ acc terms 0 t := by
  obtain ⟨n,rounds⟩ : ∃ n, (terms + 7) / 8 = n + 1 := ⟨(terms + 7) / 8 - 1,by omega⟩
  rw [rounds] at start
  have even : ∀ k, 1 ≤ k → k ≤ 4 → 2 * k + 8 * n = terms → d.table[terms % 8]? = some (d.even k) →
      ∃ l c t, d.table[terms % 8]? = some l ∧
        Steps p (.running (Program.after l p) s) (.running c t) ∧
        (c = d.evenEnd ∨ c = d.oddEnd) ∧ acc terms 0 t := by
    intro k low high whole entry
    obtain ⟨t,steps,done⟩ := adds.evens n low high (by omega) start
    exact ⟨d.even k,d.evenEnd,t,entry,steps,.inl rfl,done⟩
  have odd : ∀ k ≤ 3, 2 * k + 1 + 8 * n = terms → d.table[terms % 8]? = some (d.odd k) →
      ∃ l c t, d.table[terms % 8]? = some l ∧
        Steps p (.running (Program.after l p) s) (.running c t) ∧
        (c = d.evenEnd ∨ c = d.oddEnd) ∧ acc terms 0 t := by
    intro k high whole entry
    obtain ⟨c,t,steps,ends,done⟩ := adds.odds n high whole start
    exact ⟨d.odd k,c,t,entry,steps,ends,done⟩
  have remainder : terms % 8 < 8 := Nat.mod_lt _ (by decide)
  generalize h : terms % 8 = r at remainder even odd ⊢
  interval_cases r
  · exact even 4 (by decide) (by decide) (by omega) rfl
  · exact odd 0 (by decide) (by omega) rfl
  · exact even 1 (by decide) (by decide) (by omega) rfl
  · exact odd 1 (by decide) (by omega) rfl
  · exact even 2 (by decide) (by decide) (by omega) rfl
  · exact odd 2 (by decide) (by omega) rfl
  · exact even 3 (by decide) (by decide) (by omega) rfl
  · exact odd 3 (by decide) (by omega) rfl

theorem dispatch {s : State} {r : Reg} {l : L} (rest : List (Instr L))
    (value : s.reg r = BitVec.ofNat 32 (terms % 8))
    (flag : Cond.ls.holds s = decide (BitVec.ofNat 32 (terms % 8) ≤ 7#32))
    (entry : d.table[terms % 8]? = some l) :
    Steps p (.running (.when .ls (.ldrPc r d.table) :: rest) s)
      (.running (Program.after l p) s) := by
  have inside : Cond.ls.holds s = true := by
    rw [flag, decide_eq_true_iff, BitVec.le_def]
    simp only [BitVec.toNat_ofNat]
    omega
  have same : (s.reg r).toNat = terms % 8 := by
    rw [value, BitVec.toNat_ofNat]
    omega
  exact steps_jump (exec_table inside (by rw [same, entry]))

end Duff

end Arm
