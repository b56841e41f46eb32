import SqueezeOS.S3c2412.CpuFreq

/- The limits that the settings of s3c2412_cpufreq_calcdivs keep, for arbitrary rates. -/
namespace S3c2412

/-- The limits s3c2412_cpufreq_add sets for a part that runs above 200 MHz. -/
def info266Max : Limits := { hclk := 133000000, pclk := 66000000 }

def hclkMax (max : Limits) (freq : Freq) : Nat :=
  if max.hclk > freq.armclk then freq.armclk else max.hclk

def armRate (freq : Freq) : Nat := freq.fclk / pickArmdiv freq.fclk freq.armclk

def chosenHdiv (max : Limits) (freq : Freq) : Nat := pickHdiv (armRate freq) (hclkMax max freq)

def chosenHclk (max : Limits) (freq : Freq) : Nat := armRate freq / chosenHdiv max freq

theorem pickArmdiv_one {fclk armclk : Nat} (below : fclk < 2 * armclk) :
    pickArmdiv fclk armclk = 1 := by
  have few : fclk / armclk < 2 := Nat.div_lt_of_lt_mul (by omega)
  simp only [pickArmdiv]
  split <;> split <;> omega

theorem pickArmdiv_two {fclk armclk : Nat} (positive : 0 < armclk)
    (twice : 2 * armclk ≤ fclk) : pickArmdiv fclk armclk = 2 := by
  have many : 2 ≤ fclk / armclk := (Nat.le_div_iff_mul_le positive).mpr twice
  simp only [pickArmdiv]
  split <;> split <;> omega

theorem pickHdiv_eq {rate limit hdiv : Nat} (positive : 1 ≤ hdiv)
    (lower : hdiv * limit ≤ rate) (upper : rate < (hdiv + 1) * limit) :
    pickHdiv rate limit = hdiv := by
  have quotient : rate / limit = hdiv := Nat.div_eq_of_lt_le lower upper
  simp only [pickHdiv, quotient]
  split <;> omega

theorem pickHdiv_upper {rate limit : Nat} (positive : 0 < limit) :
    rate < (pickHdiv rate limit + 1) * limit := by
  have below : rate < (rate / limit + 1) * limit := by
    rw [Nat.mul_comm]
    exact Nat.lt_mul_div_succ rate positive
  have least : rate / limit ≤ pickHdiv rate limit := by
    simp only [pickHdiv]
    split <;> omega
  calc rate < (rate / limit + 1) * limit := below
    _ ≤ (pickHdiv rate limit + 1) * limit := Nat.mul_le_mul_right _ (by omega)

theorem pickHdiv_quotient {rate limit : Nat} (positive : 0 < limit) (least : limit ≤ rate) :
    limit ≤ rate / pickHdiv rate limit := by
  have once : 1 ≤ rate / limit := (Nat.le_div_iff_mul_le positive).mpr (by omega)
  have picked : pickHdiv rate limit = rate / limit := by
    simp only [pickHdiv]
    split <;> omega
  rw [picked, Nat.le_div_iff_mul_le once, Nat.mul_comm]
  exact Nat.div_mul_le_self ..

theorem pickPdiv_le_two {hclk pclkMax : Nat} :
    pickPdiv hclk pclkMax ≤ 2 ↔ hclk / 2 ≤ pclkMax := by
  simp only [pickPdiv]
  split <;> split <;> omega

theorem pickPdiv_fits {hclk pclkMax : Nat} (two : pickPdiv hclk pclkMax ≤ 2) :
    hclk / pickPdiv hclk pclkMax ≤ pclkMax := by
  revert two
  simp only [pickPdiv]
  split <;> split <;> omega

theorem calcdivs_accepts {max : Limits} {cfg : Config} :
    (∃ new, cpufreqCalcdivs max cfg = some new) ↔
      chosenHdiv max cfg.freq ≤ 4 ∧ chosenHclk max cfg.freq / 2 ≤ max.pclk := by
  rw [← pickPdiv_le_two]
  change (∃ new, (if chosenHdiv max cfg.freq > 4 then none
    else if pickPdiv (chosenHclk max cfg.freq) max.pclk > 2 then none else some _) = some new) ↔ _
  split
  · simp
    omega
  · split
    · simp
      omega
    · simp
      omega

theorem calcdivs_picked {max : Limits} {cfg new : Config}
    (ok : cpufreqCalcdivs max cfg = some new) :
    Chosen cfg new (pickArmdiv cfg.freq.fclk cfg.freq.armclk) (chosenHdiv max cfg.freq)
      (pickPdiv (chosenHclk max cfg.freq) max.pclk) := by
  obtain ⟨four,two⟩ := calcdivs_accepts.mp ⟨new,ok⟩
  have half := pickPdiv_le_two.mpr two
  have positive := pickPdiv_positive (chosenHclk max cfg.freq) max.pclk
  change (if chosenHdiv max cfg.freq > 4 then none
    else if pickPdiv (chosenHclk max cfg.freq) max.pclk > 2 then none else some _) = some new at ok
  rw [if_neg (by omega), if_neg (by omega)] at ok
  cases Option.some.inj ok
  exact ⟨pickArmdiv_cases _ _,pickHdiv_positive _ _,four,by omega,rfl,rfl,rfl,rfl,rfl⟩

theorem Chosen.calculated {cfg new : Config} {armdiv hdiv pdiv : Nat}
    (chosen : Chosen cfg new armdiv hdiv pdiv) (running : cfg.pll = cfg.freq.fclk) :
    Chosen cfg (cpufreqCalc new) armdiv hdiv pdiv := by
  obtain ⟨hclk,pclk⟩ := chosen.cpufreqCalc_freq
  rw [running, Nat.div_right_comm _ hdiv] at hclk pclk
  exact ⟨chosen.arm,chosen.lower,chosen.upper,chosen.half,chosen.divs,chosen.pll,chosen.armclk,
    hclk,pclk⟩

def Allowed (max : Limits) (fclk armdiv hdiv pdiv : Nat) : Prop :=
  (armdiv = 1 ∨ armdiv = 2) ∧ (1 ≤ hdiv ∧ hdiv ≤ 4) ∧ (pdiv = 1 ∨ pdiv = 2) ∧
  fclk / armdiv / hdiv ≤ max.hclk ∧ fclk / armdiv / hdiv / pdiv ≤ max.pclk

structure Limited (max : Limits) (cfg : Config) : Prop where
  within : ∀ new, cpufreqCalcdivs max cfg = some new →
    new.freq.hclk ≤ max.hclk ∧ new.freq.pclk ≤ max.pclk ∧
    new.freq.hclk ≤ cfg.freq.fclk / new.divs.armDivisor
  refused : (∀ armdiv hdiv pdiv, ¬Allowed max cfg.freq.fclk armdiv hdiv pdiv) →
    cpufreqCalcdivs max cfg = none

theorem calcdivs_limited_iff {max : Limits} {cfg : Config} :
    Limited max cfg ↔
      ∀ new, cpufreqCalcdivs max cfg = some new → chosenHclk max cfg.freq ≤ max.hclk := by
  constructor
  · intro limited new ok
    have within := (limited.within new ok).1
    rwa [(calcdivs_picked ok).hclk] at within
  · intro within
    refine ⟨?_,?_⟩
    · intro new ok
      have chosen := calcdivs_picked ok
      rw [chosen.hclk, chosen.pclk, chosen.divs]
      refine ⟨within new ok,?_,Nat.div_le_self ..⟩
      exact pickPdiv_fits (pickPdiv_le_two.mpr (calcdivs_accepts.mp ⟨new,ok⟩).2)
    · intro never
      rw [Option.eq_none_iff_forall_ne_some]
      intro new ok
      have chosen := calcdivs_picked ok
      refine never _ _ _ ⟨chosen.arm,⟨chosen.lower,chosen.upper⟩,chosen.half,within new ok,?_⟩
      exact pickPdiv_fits (pickPdiv_le_two.mpr (calcdivs_accepts.mp ⟨new,ok⟩).2)

/-- A rate behind the ARM divider that some hdiv takes to 100000001 Hz, with no larger hdiv
    asked for. -/
def OneOver (fclk armclk : Nat) : Prop :=
  ∃ hdiv, 1 ≤ hdiv ∧ hdiv ≤ 4 ∧
    ((100000001 * hdiv ≤ fclk ∧ fclk < 100000002 * hdiv ∧ fclk < 2 * armclk) ∨
     (200000002 * hdiv ≤ fclk ∧ fclk < 200000004 * hdiv ∧ 2 * armclk ≤ fclk ∧
      fclk / 2 < (hdiv + 1) * armclk))

section
variable {max : Limits} {freq : Freq}

theorem armRate_below (below : freq.fclk < 2 * freq.armclk) : armRate freq = freq.fclk := by
  rw [armRate, pickArmdiv_one below, Nat.div_one]

theorem armRate_twice (positive : 0 < freq.armclk) (twice : 2 * freq.armclk ≤ freq.fclk) :
    armRate freq = freq.fclk / 2 := by
  rw [armRate, pickArmdiv_two positive twice]

theorem hclkMax_le_armclk : hclkMax max freq ≤ freq.armclk := by
  unfold hclkMax
  split <;> omega

theorem hclkMax_le_limit : hclkMax max freq ≤ max.hclk := by
  unfold hclkMax
  split <;> omega

theorem hclkMax_positive (positive : 0 < freq.armclk) (limit : 0 < max.hclk) :
    0 < hclkMax max freq := by
  unfold hclkMax
  split <;> omega

end

theorem oneOver_of_chosen {freq : Freq} (positive : 0 < freq.armclk)
    (four : chosenHdiv infoMax freq ≤ 4) (hclk : chosenHclk infoMax freq = 100000001) :
    OneOver freq.fclk freq.armclk := by
  have least : 1 ≤ chosenHdiv infoMax freq := pickHdiv_positive _ _
  have few : armRate freq < (chosenHdiv infoMax freq + 1) * freq.armclk :=
    calc armRate freq < (chosenHdiv infoMax freq + 1) * hclkMax infoMax freq :=
          pickHdiv_upper (hclkMax_positive positive (by decide))
      _ ≤ (chosenHdiv infoMax freq + 1) * freq.armclk := Nat.mul_le_mul_left _ hclkMax_le_armclk
  have lower : 100000001 * chosenHdiv infoMax freq ≤ armRate freq := by
    rw [← hclk]
    exact Nat.div_mul_le_self ..
  have upper : armRate freq < 100000002 * chosenHdiv infoMax freq := by
    have next := Nat.lt_mul_div_succ (armRate freq) least
    rw [chosenHclk] at hclk
    rw [hclk] at next
    omega
  refine ⟨chosenHdiv infoMax freq,least,four,?_⟩
  rcases Nat.lt_or_ge freq.fclk (2 * freq.armclk) with once | twice
  · rw [armRate_below once] at lower upper
    exact .inl ⟨lower,upper,once⟩
  · rw [armRate_twice positive twice] at lower upper few
    exact .inr ⟨by omega,by omega,twice,few⟩

theorem chosen_of_oneOver {freq : Freq} (positive : 0 < freq.armclk)
    (beyond : OneOver freq.fclk freq.armclk) :
    chosenHdiv infoMax freq ≤ 4 ∧ chosenHclk infoMax freq = 100000001 := by
  obtain ⟨hdiv,lower,upper,beyond⟩ := beyond
  have most : hclkMax infoMax freq ≤ 100000000 := hclkMax_le_limit
  have rate : 100000001 * hdiv ≤ armRate freq ∧ armRate freq < 100000002 * hdiv ∧
      armRate freq < (hdiv + 1) * freq.armclk := by
    rcases beyond with ⟨least,below,once⟩ | ⟨least,below,twice,few⟩
    · rw [armRate_below once]
      refine ⟨least,below,?_⟩
      calc freq.fclk < 2 * freq.armclk := once
        _ ≤ (hdiv + 1) * freq.armclk := Nat.mul_le_mul_right _ (by omega)
    · rw [armRate_twice positive twice]
      exact ⟨by omega,by omega,few⟩
  obtain ⟨least,below,few⟩ := rate
  have picked : chosenHdiv infoMax freq = hdiv := by
    apply pickHdiv_eq lower
    · calc hdiv * hclkMax infoMax freq ≤ hdiv * 100000000 := Nat.mul_le_mul_left _ most
        _ ≤ armRate freq := by omega
    · unfold hclkMax
      split
      · exact few
      · simp only [infoMax]
        omega
  refine ⟨picked.trans_le upper,?_⟩
  rw [chosenHclk, picked]
  apply Nat.div_eq_of_lt_le
  · omega
  · omega

theorem limited_266 (cfg : Config) : Limited info266Max cfg := by
  rw [calcdivs_limited_iff]
  intro new ok
  have half : chosenHclk info266Max cfg.freq / 2 ≤ 66000000 := (calcdivs_accepts.mp ⟨new,ok⟩).2
  have limit : info266Max.hclk = 133000000 := rfl
  omega

theorem limited_200_iff {cfg : Config} (positive : 0 < cfg.freq.armclk) :
    Limited infoMax cfg ↔ ¬OneOver cfg.freq.fclk cfg.freq.armclk := by
  have limit : infoMax.hclk = 100000000 := rfl
  have half : infoMax.pclk = 50000000 := rfl
  rw [calcdivs_limited_iff]
  constructor
  · intro within exceeds
    obtain ⟨four,hclk⟩ := chosen_of_oneOver positive exceeds
    obtain ⟨new,ok⟩ := calcdivs_accepts.mpr ⟨four,by omega⟩
    have below := within new ok
    omega
  · intro apart new ok
    obtain ⟨four,two⟩ := calcdivs_accepts.mp ⟨new,ok⟩
    by_contra above
    exact apart (oneOver_of_chosen positive four (by omega))

/-- Settings are within the limits of both parts unless hclk comes out at 100000001 Hz, which
    halves to a pclk of 50 MHz. -/
theorem calcdivs_limited (cfg : Config) (requested : 0 < cfg.freq.armclk) :
    Limited infoMax cfg ∧ Limited info266Max cfg ↔
      ¬OneOver cfg.freq.fclk cfg.freq.armclk := by
  rw [limited_200_iff requested]
  exact and_iff_left (limited_266 cfg)

def requestOf (fclk armclk : Nat) : Config :=
  { fullSpeed.running fclk with
    freq := { fclk := fclk, armclk := armclk, hclkTns := 0, hclk := 0, pclk := 0 } }

theorem calcdivs_limited_200MHz :
    Limited infoMax (requestOf 200000000 200000000) ∧
    Limited info266Max (requestOf 200000000 200000000) := by
  apply (calcdivs_limited _ (by decide)).mpr
  rintro ⟨hdiv,lower,upper,once | twice⟩
  · have rate : 100000001 * hdiv ≤ 200000000 ∧ 200000000 < 100000002 * hdiv := ⟨once.1,once.2.1⟩
    omega
  · have rate : 2 * 200000000 ≤ 200000000 := twice.2.2.1
    omega

theorem calcdivs_one_over :
    ¬(Limited infoMax (requestOf 100000001 100000001) ∧
      Limited info266Max (requestOf 100000001 100000001)) := by
  rintro ⟨limited,-⟩
  have exceeds := (limited.within _ rfl).1
  revert exceeds
  decide

end S3c2412
