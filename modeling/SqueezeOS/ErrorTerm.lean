import Mathlib.Data.Int.GCD
import Mathlib.Data.Nat.ModEq
import Mathlib.Tactic.Linarith
import Mathlib.Tactic.Ring

/- A walk of `n` steps along one axis and `m` along another one, which is the shorter. An error
   term says when the other axis is stepped. -/
namespace ErrorTerm

structure Walk where
  steps : Int
  error : Int
  deriving DecidableEq, Repr

def advance (n m : Int) (w : Walk) : Walk :=
  if w.error > 0 then { steps := w.steps + 1, error := w.error - n + m }
  else { w with error := w.error + m }

def walk (n m first : Int) : Nat → Walk
  | 0 => { steps := 0, error := first }
  | i + 1 => advance n m (walk n m first i)

/-- How far the walk is from the straight line, `n` times. -/
def ahead (n m first : Int) (i : Nat) : Int := (walk n m first i).steps * n - i * m

section
variable {n m first : Int}

theorem advance_error (n m : Int) (w : Walk) :
    (0 < w.error ∧ (advance n m w).error = w.error - n + m ∧
      (advance n m w).steps = w.steps + 1) ∨
    (w.error ≤ 0 ∧ (advance n m w).error = w.error + m ∧ (advance n m w).steps = w.steps) := by
  unfold advance
  split
  · rename_i positive
    exact .inl ⟨positive,rfl,rfl⟩
  · rename_i negative
    exact .inr ⟨not_lt.mp negative,rfl,rfl⟩

theorem ahead_error (n m first : Int) (i : Nat) :
    ahead n m first i = first - (walk n m first i).error := by
  induction i with
  | zero => simp [ahead, walk]
  | succ i ih =>
    unfold ahead at ih ⊢
    rw [walk]
    rcases advance_error n m (walk n m first i) with ⟨_,error,steps⟩ | ⟨_,error,steps⟩
    · rw [error, steps]
      push_cast
      linarith
    · rw [error, steps]
      push_cast
      linarith

theorem steps_monotone (n m first : Int) (i : Nat) :
    (walk n m first i).steps ≤ (walk n m first (i + 1)).steps ∧
    (walk n m first (i + 1)).steps ≤ (walk n m first i).steps + 1 := by
  rw [walk]
  rcases advance_error n m (walk n m first i) with ⟨_,_,steps⟩ | ⟨_,_,steps⟩
  · omega
  · omega

theorem steps_nonneg (n m first : Int) (i : Nat) : 0 ≤ (walk n m first i).steps := by
  induction i with
  | zero => exact le_rfl
  | succ i ih => exact ih.trans (steps_monotone n m first i).1

theorem error_bounds (shorter : 0 ≤ m ∧ m ≤ n) (start : m - n ≤ first ∧ first ≤ n) (i : Nat) :
    m - n ≤ (walk n m first i).error ∧ (walk n m first i).error ≤ n := by
  induction i with
  | zero => exact start
  | succ i ih =>
    rw [walk]
    rcases advance_error n m (walk n m first i) with ⟨_,error,_⟩ | ⟨_,error,_⟩
    · omega
    · omega

theorem error_below (shorter : 0 ≤ m ∧ m ≤ n) (start : m - n ≤ first ∧ first ≤ n) (i : Nat) :
    (walk n m first (i + 1)).error ≤ m := by
  have bounds := error_bounds shorter start i
  rw [walk]
  rcases advance_error n m (walk n m first i) with ⟨_,error,_⟩ | ⟨_,error,_⟩
  · omega
  · omega

theorem error_window (shorter : 0 < m ∧ m ≤ n) (start : m - n ≤ first ∧ first ≤ n) (i : Nat) :
    m - n < (walk n m first (i + 1)).error := by
  have bounds := error_bounds ⟨shorter.1.le,shorter.2⟩ start i
  rw [walk]
  rcases advance_error n m (walk n m first i) with ⟨_,error,_⟩ | ⟨_,error,_⟩
  · omega
  · omega

theorem error_above (shorter : 0 ≤ m) (start : m - n < first) (i : Nat) :
    m - n < (walk n m first i).error := by
  induction i with
  | zero => exact start
  | succ i ih =>
    rw [walk]
    rcases advance_error n m (walk n m first i) with ⟨_,error,_⟩ | ⟨_,error,_⟩
    · omega
    · omega

theorem error_eq_of_dvd (shorter : 0 < m ∧ m ≤ n) (start : m - n ≤ first ∧ first ≤ n) {i : Nat}
    {v : Int} (inside : m - n < v ∧ v ≤ m) (same : n ∣ first + (i + 1 : Nat) * m - v) :
    (walk n m first (i + 1)).error = v := by
  have above := error_window shorter start i
  have below := error_below ⟨shorter.1.le,shorter.2⟩ start i
  have balance := ahead_error n m first (i + 1)
  have difference : n ∣ (walk n m first (i + 1)).error - v := by
    have shifted : (walk n m first (i + 1)).error - v =
        first + (i + 1 : Nat) * m - v - (walk n m first (i + 1)).steps * n := by
      unfold ahead at balance
      linarith
    rw [shifted]
    exact Int.dvd_sub same (Int.dvd_mul_left _ n)
  have near : |(walk n m first (i + 1)).error - v| < n := by
    rw [abs_lt]
    omega
  exact sub_eq_zero.mp (Int.eq_zero_of_abs_lt_dvd difference near)

theorem le_of_mul {k a : Int} (positive : 0 < n) (less : k * n < (a + 1) * n) : k ≤ a :=
  Int.lt_add_one_iff.mp (lt_of_mul_lt_mul_right less positive.le)

end

section
variable {n m : Nat}

theorem along_le (m : Nat) {i : Nat} (within : i < n) : (i : Int) * m ≤ (n - 1) * m := by
  apply mul_le_mul_of_nonneg_right
  · omega
  · omega

theorem whole_of_ahead {first q : Int} {i : Nat} (whole : ahead n m first i = q * n) :
    n ∣ i * m := by
  have back : (i : Int) * m = ((walk n m first i).steps - q) * n := by
    unfold ahead at whole
    linarith
  exact_mod_cast (Dvd.intro_left _ back.symm : (n : Int) ∣ (i : Int) * m)

theorem lagging_ahead (shorter : m ≤ n) (i : Nat) :
    -n ≤ ahead n m (m - n) i ∧ ahead n m (m - n) i ≤ 0 := by
  have start : (m : Int) - n ≤ m - n ∧ (m : Int) - n ≤ n := by omega
  have bounds := error_bounds (by omega) start i
  have below : (walk n m (m - n) i).error ≤ m := by
    cases i with
    | zero =>
      change (m : Int) - n ≤ m
      omega
    | succ i => exact error_below (by omega) start i
  rw [ahead_error]
  omega

theorem lagging_steps (shorter : m ≤ n) {i : Nat} (within : i < n) :
    (walk n m (m - n) i).steps ≤ m := by
  have behind := (lagging_ahead shorter i).2
  have along := along_le m within
  unfold ahead at behind
  apply le_of_mul (n := n) (by omega)
  linarith

theorem lagging_full_iff (some : 0 < m) (shorter : m ≤ n) (i : Nat) :
    ahead n m (m - n) (i + 1) = -n ↔ n ∣ (i + 1) * m := by
  have start : (m : Int) - n ≤ m - n ∧ (m : Int) - n ≤ n := by omega
  constructor
  · intro full
    exact whole_of_ahead (q := -1) (full.trans (neg_one_mul _).symm)
  · intro whole
    have divides : (n : Int) ∣ ((i + 1 : Nat) : Int) * m := by exact_mod_cast whole
    have same : (n : Int) ∣ (m - n : Int) + (i + 1 : Nat) * m - m := by
      have shifted : (m - n : Int) + (i + 1 : Nat) * m - m = (i + 1 : Nat) * m - n := by ring
      rw [shifted]
      exact Int.dvd_sub divides (Int.dvd_refl _)
    have error := error_eq_of_dvd (by omega) start (by omega) same
    rw [ahead_error, error]
    omega

theorem exists_whole_of_not_coprime (some : 0 < m) (shorter : m ≤ n) (common : ¬m.Coprime n) :
    ∃ i, i + 1 < n ∧ n ∣ (i + 1) * m := by
  have two : 2 ≤ m.gcd n := by
    have positive := Nat.gcd_pos_of_pos_left n some
    unfold Nat.Coprime at common
    omega
  obtain ⟨q,n_eq⟩ := Nat.gcd_dvd_right m n
  obtain ⟨r,m_eq⟩ := Nat.gcd_dvd_left m n
  have q_pos : 0 < q := by
    apply Nat.pos_of_ne_zero
    rintro rfl
    omega
  refine ⟨q - 1,?_,?_⟩
  · rw [Nat.sub_add_cancel q_pos, n_eq]
    nlinarith
  · rw [Nat.sub_add_cancel q_pos]
    refine ⟨r,?_⟩
    calc q * m = q * (m.gcd n * r) := by rw [← m_eq]
      _ = m.gcd n * q * r := by ring
      _ = n * r := by rw [← n_eq]

theorem not_whole_of_coprime (coprime : m.Coprime n) {i : Nat} (within : i + 1 < n) :
    ¬n ∣ (i + 1) * m := by
  intro whole
  have divides : n ∣ i + 1 := coprime.symm.dvd_of_dvd_mul_right whole
  exact absurd (Nat.le_of_dvd (Nat.succ_pos i) divides) (Nat.not_le.mpr within)

theorem lagging_iff (shorter : m ≤ n) :
    (∀ i < n, -n < ahead n m (m - n) i) ↔ m = 0 ∨ m.Coprime n := by
  constructor
  · intro near
    by_contra neither
    obtain ⟨some,common⟩ := not_or.mp neither
    obtain ⟨i,within,whole⟩ := exists_whole_of_not_coprime (Nat.pos_of_ne_zero some) shorter common
    have full := (lagging_full_iff (Nat.pos_of_ne_zero some) shorter i).mpr whole
    exact absurd full (near (i + 1) within).ne'
  · rintro (rfl | coprime) i within
    · have steps := steps_nonneg n (0 : Nat) ((0 : Nat) - n) i
      have forward := mul_nonneg steps (Int.natCast_nonneg n)
      unfold ahead
      rw [Int.natCast_zero, mul_zero, sub_zero]
      exact lt_of_lt_of_le (by omega) forward
    · apply lt_of_le_of_ne (lagging_ahead shorter i).1
      intro full
      cases i with
      | zero =>
        simp [ahead, walk] at full
        omega
      | succ i =>
        rcases Nat.eq_zero_or_pos m with rfl | some
        · rw [Nat.coprime_zero_left] at coprime
          omega
        · exact not_whole_of_coprime coprime within ((lagging_full_iff some shorter i).mp full.symm)

theorem leading_behind (shorter : m < n) (i : Nat) : -n < ahead n m (n - m) i := by
  cases i with
  | zero =>
    simp [ahead, walk]
    omega
  | succ i =>
    have below : (walk n m (n - m) (i + 1)).error ≤ m := error_below (by omega) (by omega) i
    rw [ahead_error]
    omega

theorem leading_ahead (shorter : m < n) (i : Nat) : ahead n m (n - m) i < 2 * n - 2 * m := by
  have above : (m : Int) - n < (walk n m (n - m) i).error := error_above (by omega) (by omega) i
  rw [ahead_error]
  omega

theorem leading_steps (shorter : m < n) {i : Nat} (within : i < n) :
    (walk n m (n - m) i).steps ≤ m + 1 := by
  have far := leading_ahead shorter i
  have along := along_le m within
  unfold ahead at far
  apply le_of_mul (n := n) (by omega)
  linarith

structure Leads (n m i : Nat) : Prop where
  steps : (walk n m (n - m) i).steps ≤ m
  near : ahead n m (n - m) i < n

theorem leads_of_short (shorter : m < n) (short : n ≤ 2 * m + 1) {i : Nat} (within : i < n) :
    Leads n m i := by
  have near : ahead n m (n - m) i < n := by
    cases i with
    | zero => simpa [ahead, walk] using within
    | succ i =>
      have some : (0 : Int) < m := by omega
      have above : (m : Int) - n < (walk n m (n - m) (i + 1)).error :=
        error_window ⟨some,by omega⟩ (by omega) i
      rw [ahead_error]
      by_contra full
      -- the error is -m, as it is where the straight line comes to a whole step
      have whole : ahead n m (n - m) (i + 1) = n := by
        rw [ahead_error]
        omega
      have divides : n ∣ (i + 1) * m := whole_of_ahead (q := 1) (whole.trans (one_mul _).symm)
      have coprime : m.Coprime n := by
        have odd : n = 2 * m + 1 := by
          rw [ahead_error] at whole
          omega
        rw [odd]
        simp
      exact not_whole_of_coprime coprime within divides
  refine ⟨?_,near⟩
  have along := along_le m within
  unfold ahead at near
  apply le_of_mul (n := n) (by omega)
  linarith

theorem exists_before_whole (coprime : m.Coprime n) (two : 2 ≤ n) :
    ∃ i, i + 1 < n ∧ n ∣ (i + 1) * m + 1 := by
  obtain ⟨j,below,inverse⟩ := Nat.exists_mul_mod_eq_one_of_coprime coprime two
  have some : 0 < j := by
    apply Nat.pos_of_ne_zero
    rintro rfl
    simp at inverse
  have back : n - j - 1 + 1 = n - j := by omega
  refine ⟨n - j - 1,by omega,?_⟩
  rw [back]
  have quotient : n * (m * j / n) + 1 = m * j := by
    rw [← inverse]
    exact Nat.div_add_mod (m * j) n
  have together : (n - j) * m + 1 + n * (m * j / n) = n * m := by
    calc (n - j) * m + 1 + n * (m * j / n) = (n - j) * m + (n * (m * j / n) + 1) := by ring
      _ = (n - j + j) * m := by rw [quotient]; ring
      _ = n * m := by rw [Nat.sub_add_cancel below.le]
  exact (Nat.dvd_add_left (Nat.dvd_mul_right n _)).mp (together ▸ Nat.dvd_mul_right n m)

/-- On a longer walk there is a step that is too far ahead: where the straight line comes to a
    whole step, or else where it is short of one by the least there can be. -/
theorem exists_not_leads (long : 2 * m + 2 ≤ n) : ∃ i < n, ¬Leads n m i := by
  rcases Nat.eq_zero_or_pos m with rfl | some
  · refine ⟨1,by omega,?_⟩
    intro leads
    have positive : 0 < n := by omega
    simpa [walk, advance, positive] using leads.steps
  · have far {i : Nat} {v : Int} (inside : (m : Int) - n < v ∧ v ≤ -m)
        (same : (n : Int) ∣ (n - m) + (i + 1 : Nat) * m - v) : ¬Leads n m (i + 1) := by
      have error := error_eq_of_dvd (by omega) (by omega) (by omega) same
      intro leads
      have near := leads.near
      rw [ahead_error, error] at near
      omega
    by_cases coprime : m.Coprime n
    · obtain ⟨i,within,before⟩ := exists_before_whole coprime (by omega)
      have divides : (n : Int) ∣ ((i + 1 : Nat) : Int) * m + 1 := by exact_mod_cast before
      refine ⟨i + 1,within,far (v := -m - 1) (by omega) ?_⟩
      have shifted : (n - m : Int) + (i + 1 : Nat) * m - (-m - 1) =
          n + ((i + 1 : Nat) * m + 1) := by ring
      rw [shifted]
      exact Int.dvd_add (Int.dvd_refl _) divides
    · obtain ⟨i,within,whole⟩ := exists_whole_of_not_coprime some (by omega) coprime
      have divides : (n : Int) ∣ ((i + 1 : Nat) : Int) * m := by exact_mod_cast whole
      refine ⟨i + 1,within,far (v := -m) (by omega) ?_⟩
      have shifted : (n - m : Int) + (i + 1 : Nat) * m - -m = n + (i + 1 : Nat) * m := by ring
      rw [shifted]
      exact Int.dvd_add (Int.dvd_refl _) divides

theorem leading_iff (shorter : m < n) : (∀ i < n, Leads n m i) ↔ n ≤ 2 * m + 1 := by
  constructor
  · intro leads
    by_contra long
    obtain ⟨i,within,far⟩ := exists_not_leads (n := n) (m := m) (by omega)
    exact far (leads i within)
  · intro short i within
    exact leads_of_short shorter short within

end

end ErrorTerm
