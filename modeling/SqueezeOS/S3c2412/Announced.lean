import SqueezeOS.S3c2412.Limits

/- The frequency that s3c24xx_cpufreq_target announces, next to the one it programs and the
   one s3c24xx_cpufreq_get then reports. -/
namespace S3c2412
open BitFields

inductive Transition where
  | prechange
  | postchange
  deriving DecidableEq, Repr

/-- Of struct cpufreq_freqs, the frequencies, in kHz. -/
structure CpufreqFreqs where
  old : Nat
  new : Nat
  deriving DecidableEq, Repr

/-- The calls of cpufreq_notify_transition that s3c24xx_cpufreq_target makes. -/
def notifications (board : Board) (max : Limits) (s : Cpu) (targetFreq : Nat) :
    List (CpufreqFreqs × Transition) :=
  match settings board max s targetFreq with
  | none => []
  | some new =>
    let freqs : CpufreqFreqs :=
      { old := (cpufreqGetcur s).freq.armclk / 1000, new := new.freq.armclk / 1000 }
    [(freqs, .prechange), (freqs, .postchange)]

/-- The rate of armclk is that of its parent. -/
def cpufreqGet (s : Cpu) : Nat := (if s.dvs then s.hclk else s.mpll) / 1000

def armHz (s : Cpu) : Nat :=
  if s.regs.clkdivn &&& dvsen ≠ 0 then (initClocks s.fclk s.regs.clkdivn).1
  else s.fclk / (if s.regs.clkdivn &&& armdivn ≠ 0 then 2 else 1)

def Announced (board : Board) (max : Limits) (s : Cpu) (targetFreq : Nat) : Prop :=
  ∀ notified ∈ notifications board max s targetFreq,
    notified.1.new = armHz (cpufreqTarget board max s targetFreq) / 1000 ∧
    notified.1.new = cpufreqGet (cpufreqTarget board max s targetFreq)

/-- A request for fclk itself, to the kHz, or one that goes hdiv times into fclk / 2 and leaves
    so little that a share is the request, to the kHz. -/
def Reached (max : Limits) (fclk armclk : Nat) : Prop :=
  ((fclk < 2 * armclk ∨ armclk = 0) ∧ armclk / 1000 = fclk / 1000) ∨
  (0 < armclk ∧ 2 * armclk ≤ fclk ∧ armclk ≤ max.hclk ∧
    ∃ hdiv, hdiv * armclk ≤ fclk / 2 ∧ fclk / 2 < (hdiv + 1) * armclk ∧
      fclk / 2 < (1000 * (armclk / 1000 + 1)) * hdiv)

section
variable {board : Board} {max : Limits} {s : Cpu} {targetFreq : Nat} {new : Config}

def dvsMode (new : Config) : Bool := new.freq.armclk ≤ new.freq.hclk

theorem change_left (board : Board) (new : Config) (s : Cpu) :
    (change board new s).regs.clkdivn =
      write (setdivsValue new s.regs.clkdivn) dvsen (if dvsMode new then dvsen else 0) ∧
    (change board new s).dvs = dvsMode new ∧ (change board new s).mpll = new.pll := by
  rcases change_cases board new s with ⟨_,changed⟩ | ⟨_,changed⟩ | ⟨_,changed⟩
  all_goals
    rw [changed]
    exact ⟨rfl,rfl,rfl⟩

theorem dvsMode_within (new : Config) :
    (if dvsMode new then dvsen else 0) &&& dvsen = (if dvsMode new then dvsen else 0) := by
  cases dvsMode new <;> rfl

theorem change_dvsen (board : Board) (new : Config) (s : Cpu) :
    (change board new s).regs.clkdivn &&& dvsen ≠ 0 ↔ dvsMode new = true := by
  rw [(change_left board new s).1, write_inside (show dvsen &&& dvsen = dvsen from rfl)]
  cases dvsMode new <;> decide

theorem change_armdivn {cfg : Config} {armdiv hdiv pdiv : Nat}
    (chosen : Chosen cfg new armdiv hdiv pdiv) (board : Board) (s : Cpu) :
    (if (change board new s).regs.clkdivn &&& armdivn ≠ 0 then 2 else 1) = armdiv := by
  obtain ⟨_,_,armbit,_⟩ := chosen.bits
  rw [(change_left board new s).1, write_apart _ (dvsMode_within new) (by rfl), chosen.setdivs,
    write_inside (show armdivn &&& dividerMask = _ from rfl)]
  exact armbit

theorem settings_picked (ok : settings board max s targetFreq = some new) :
    Chosen (wanted s targetFreq) new
      (pickArmdiv s.fclk (wanted s targetFreq).freq.armclk)
      (chosenHdiv max (wanted s targetFreq).freq)
      (pickPdiv (chosenHclk max (wanted s targetFreq).freq) max.pclk) := by
  obtain ⟨divided,calculated,rfl⟩ := settings_divided ok
  exact (calcdivs_picked calculated).calculated rfl

theorem change_programs (ok : settings board max s targetFreq = some new) :
    armHz (change board new s) =
      (if dvsMode new then new.freq.hclk else armRate (wanted s targetFreq).freq) ∧
    cpufreqGet (change board new s) = (if dvsMode new then new.freq.hclk else s.fclk) / 1000 := by
  have chosen := settings_picked ok
  obtain ⟨pll,selects⟩ := settings_selected ok
  obtain ⟨fclk,hclk⟩ := change_rates board new s
  obtain ⟨clkdivn,dvs,mpll⟩ := change_left board new s
  refine ⟨?_,?_⟩
  · simp only [armHz, change_dvsen, change_armdivn chosen, fclk, pll]
    split
    · rw [clkdivn]
      have divided := initClocks_dvsen s.fclk (setdivsValue new s.regs.clkdivn) (dvsMode new)
      rw [← selects s.regs.clkdivn, ← divided]
      rfl
    · rfl
  · rw [cpufreqGet, dvs, hclk, mpll, chosen.pll]
    rfl

theorem announced_iff (ok : settings board max s targetFreq = some new) :
    Announced board max s targetFreq ↔
      new.freq.armclk / 1000 =
        (if dvsMode new then new.freq.hclk else armRate (wanted s targetFreq).freq) / 1000 ∧
      new.freq.armclk / 1000 = (if dvsMode new then new.freq.hclk else s.fclk) / 1000 := by
  obtain ⟨arm,get⟩ := change_programs ok
  simp [Announced, notifications, cpufreqTarget, ok, arm, get]

end

theorem chosenHclk_below {max : Limits} {freq : Freq} (below : freq.fclk < 2 * freq.armclk) :
    chosenHclk max freq = freq.fclk ∨ chosenHclk max freq < freq.armclk := by
  have positive : 1 ≤ chosenHdiv max freq := pickHdiv_positive _ _
  rw [chosenHclk, armRate_below below]
  rcases Nat.lt_or_ge 1 (chosenHdiv max freq) with more | one
  · right
    calc freq.fclk / chosenHdiv max freq ≤ freq.fclk / 2 :=
          Nat.div_le_div_left more (by decide)
      _ < freq.armclk := by omega
  · left
    have once : chosenHdiv max freq = 1 := by omega
    rw [once, Nat.div_one]

theorem armRate_zero {freq : Freq} (zero : freq.armclk = 0) : armRate freq = freq.fclk := by
  rw [armRate, zero]
  simp [pickArmdiv]

theorem chosenHclk_zero {max : Limits} {freq : Freq} (zero : freq.armclk = 0) :
    chosenHclk max freq = freq.fclk := by
  have limit : hclkMax max freq = 0 := by
    have most : hclkMax max freq ≤ freq.armclk := hclkMax_le_armclk
    omega
  rw [chosenHclk, chosenHdiv, limit, armRate_zero zero]
  simp [pickHdiv]

theorem chosenHclk_within {max : Limits} {freq : Freq} (positive : 0 < freq.armclk)
    (twice : 2 * freq.armclk ≤ freq.fclk) (within : freq.armclk ≤ max.hclk) :
    chosenHdiv max freq = freq.fclk / 2 / freq.armclk ∧
    chosenHclk max freq = freq.fclk / 2 / (freq.fclk / 2 / freq.armclk) ∧
    freq.armclk ≤ chosenHclk max freq := by
  have limit : hclkMax max freq = freq.armclk := by
    unfold hclkMax
    split <;> omega
  have once : 1 ≤ freq.fclk / 2 / freq.armclk := (Nat.le_div_iff_mul_le positive).mpr (by omega)
  have picked : chosenHdiv max freq = freq.fclk / 2 / freq.armclk := by
    rw [chosenHdiv, armRate_twice positive twice, limit]
    simp only [pickHdiv]
    split <;> omega
  have hclk : chosenHclk max freq = freq.fclk / 2 / (freq.fclk / 2 / freq.armclk) := by
    rw [chosenHclk, picked, armRate_twice positive twice]
  refine ⟨picked,hclk,?_⟩
  calc freq.armclk = hclkMax max freq := limit.symm
    _ ≤ chosenHclk max freq := by
      apply pickHdiv_quotient
      · omega
      · rw [limit, armRate_twice positive twice]
        omega

/-- Where the request is above the limit on hclk and at most half of fclk, hclk stays below
    it: requests are multiples of 8 Hz. -/
theorem chosenHclk_above {max : Limits} {freq : Freq}
    (part : max = infoMax ∨ max = info266Max) (half : chosenHclk max freq / 2 ≤ max.pclk)
    (eight : freq.armclk % 8 = 0) (above : max.hclk < freq.armclk) :
    chosenHclk max freq < freq.armclk := by
  rcases part with rfl | rfl
  · simp only [infoMax] at half above ⊢
    omega
  · simp only [info266Max] at half above ⊢
    omega

theorem khz_iff {low high : Nat} (ordered : low ≤ high) :
    low / 1000 = high / 1000 ↔ high < 1000 * (low / 1000 + 1) := by
  omega

theorem reached_once {max : Limits} {fclk armclk : Nat}
    (once : fclk < 2 * armclk ∨ armclk = 0) :
    Reached max fclk armclk ↔ armclk / 1000 = fclk / 1000 := by
  constructor
  · rintro (⟨_,same⟩ | ⟨positive,twice,_⟩)
    · exact same
    · omega
  · exact fun same => .inl ⟨once,same⟩

theorem reached_within {max : Limits} {freq : Freq} (positive : 0 < freq.armclk)
    (twice : 2 * freq.armclk ≤ freq.fclk) (within : freq.armclk ≤ max.hclk) :
    Reached max freq.fclk freq.armclk ↔ freq.armclk / 1000 = chosenHclk max freq / 1000 := by
  obtain ⟨picked,hclk,least⟩ := chosenHclk_within positive twice within
  have once : 1 ≤ freq.fclk / 2 / freq.armclk := by
    rw [← picked]
    exact pickHdiv_positive _ _
  rw [khz_iff least, hclk, Nat.div_lt_iff_lt_mul once]
  constructor
  · rintro (⟨below,_⟩ | ⟨_,_,_,hdiv,lower,upper,less⟩)
    · omega
    · rwa [Nat.div_eq_of_lt_le lower upper]
  · intro less
    refine .inr ⟨positive,twice,within,_,Nat.div_mul_le_self ..,?_,less⟩
    rw [Nat.mul_comm]
    exact Nat.lt_mul_div_succ _ positive

theorem reached_iff {max : Limits} {freq : Freq} (part : max = infoMax ∨ max = info266Max)
    (half : chosenHclk max freq / 2 ≤ max.pclk) (eight : freq.armclk % 8 = 0) :
    (freq.armclk / 1000 =
        (if freq.armclk ≤ chosenHclk max freq then chosenHclk max freq else armRate freq) / 1000 ∧
      freq.armclk / 1000 =
        (if freq.armclk ≤ chosenHclk max freq then chosenHclk max freq else freq.fclk) / 1000) ↔
      Reached max freq.fclk freq.armclk := by
  by_cases once : freq.fclk < 2 * freq.armclk ∨ freq.armclk = 0
  · have same : armRate freq = freq.fclk ∧
        (chosenHclk max freq = freq.fclk ∨ chosenHclk max freq < freq.armclk) := by
      rcases once with below | zero
      · exact ⟨armRate_below below,chosenHclk_below below⟩
      · exact ⟨armRate_zero zero,.inl (chosenHclk_zero zero)⟩
    rw [reached_once once, same.1, and_self]
    rcases same.2 with whole | below
    · rw [whole, ite_self]
    · rw [if_neg (by omega)]
  · have positive : 0 < freq.armclk := by omega
    have twice : 2 * freq.armclk ≤ freq.fclk := by omega
    rcases Nat.lt_or_ge max.hclk freq.armclk with above | within
    · have below := chosenHclk_above part half eight above
      have limit : 1000 ≤ max.hclk := by
        rcases part with rfl | rfl <;> decide
      rw [if_neg (by omega), if_neg (by omega), armRate_twice positive twice]
      constructor
      · rintro ⟨divided,undivided⟩
        omega
      · rintro (⟨_,_⟩ | ⟨_,_,within,_⟩)
        · omega
        · omega
    · have least := (chosenHclk_within positive twice within).2.2
      rw [reached_within positive twice within, if_pos least, if_pos least, and_self]

/-- For settings that are accepted, what is announced is run at and reported exactly when the
    request can be reached. -/
theorem announced_iff_reached {board : Board} {max : Limits} {s : Cpu} {targetFreq : Nat}
    {new : Config} (part : max = infoMax ∨ max = info266Max)
    (ok : settings board max s targetFreq = some new) :
    Announced board max s targetFreq ↔ Reached max s.fclk (targetFreq * 1000 % 2 ^ 32) := by
  have chosen := settings_picked ok
  obtain ⟨divided,calculated,_⟩ := settings_divided ok
  obtain ⟨_,half⟩ := calcdivs_accepts.mp ⟨divided,calculated⟩
  have eight : (wanted s targetFreq).freq.armclk % 8 = 0 := by
    change targetFreq * 1000 % 2 ^ 32 % 8 = 0
    omega
  have reached := reached_iff part half eight
  have hclk : new.freq.hclk = chosenHclk max (wanted s targetFreq).freq := chosen.hclk
  rw [announced_iff ok]
  simp only [dvsMode, chosen.armclk, hclk, decide_eq_true_eq]
  exact reached

theorem announced_100MHz :
    Announced jiveCpufreq infoMax (boot 200000000 ⟨0x5,780⟩) 100000 := by
  refine (announced_iff_reached (.inl rfl) (show settings _ _ _ _ = some _ from rfl)).mpr ?_
  refine .inr ⟨by decide,by decide,by decide,1,by decide,by decide,by decide⟩

/-- At 150 MHz requested the dividers stay at 1 and the core runs at 200 MHz. -/
theorem announced_150MHz_wrong :
    settings jiveCpufreq infoMax (boot 200000000 ⟨0x5,780⟩) 150000 ≠ none ∧
    ¬Announced jiveCpufreq infoMax (boot 200000000 ⟨0x5,780⟩) 150000 := by
  refine ⟨by decide,?_⟩
  intro announced
  have wrong := (announced _ (List.mem_cons_self ..)).1
  revert wrong
  decide

end S3c2412
