import SqueezeOS.BitFields

/- The dividers of CLKDIVN: how cpufreq picks and writes them, and how the boot code
   reads them back. Rates are in Hz and fit in 32 bits; a division by zero gives 0, as
   the kernel's own division routine does. -/
namespace S3c2412
open BitFields

def armdivn : BitVec 32 := 1 <<< 3
def hdivnMask : BitVec 32 := 3 <<< 0
def pdivn : BitVec 32 := 1 <<< 2
def dvsen : BitVec 32 := 1 <<< 4

structure Freq where
  fclk : Nat
  armclk : Nat
  hclkTns : Nat
  hclk : Nat
  pclk : Nat
  deriving DecidableEq, Repr

structure Divs where
  pDivisor : Nat
  hDivisor : Nat
  armDivisor : Nat
  deriving DecidableEq, Repr

/-- Of the limits in struct s3c24xx_cpufreq_info, those that are read. -/
structure Limits where
  hclk : Nat
  pclk : Nat
  deriving DecidableEq, Repr

structure Config where
  freq : Freq
  pll : Nat
  divs : Divs
  deriving DecidableEq, Repr

def pickArmdiv (fclk armclk : Nat) : Nat :=
  let armdiv := fclk / armclk
  let armdiv := if armdiv < 1 then 1 else armdiv
  if armdiv > 2 then 2 else armdiv

def pickHdiv (armclk hclkMax : Nat) : Nat :=
  let hdiv := armclk / hclkMax
  if hdiv < 1 then 1 else hdiv

def pickPdiv (hclk pclkMax : Nat) : Nat :=
  let pdiv := if hclk > pclkMax then 2 else 1
  if hclk / pdiv > pclkMax then pdiv + 1 else pdiv

/-- `none` is -EINVAL. -/
def cpufreqCalcdivs (max : Limits) (cfg : Config) : Option Config :=
  let hclkMax := if max.hclk > cfg.freq.armclk then cfg.freq.armclk else max.hclk
  let armdiv := pickArmdiv cfg.freq.fclk cfg.freq.armclk
  let armclk := cfg.freq.fclk / armdiv
  let hdiv := pickHdiv armclk hclkMax
  let hclk := armclk / hdiv
  if hdiv > 4 then none
  else
    let pdiv := pickPdiv hclk max.pclk
    if pdiv > 2 then none
    else some { cfg with
      freq := { cfg.freq with hclk := hclk, pclk := hclk / pdiv }
      divs := { armDivisor := armdiv, hDivisor := hdiv * armdiv, pDivisor := pdiv * hdiv * armdiv } }

def cpufreqCalc (cfg : Config) : Config :=
  let hclk := cfg.pll / cfg.divs.hDivisor
  { cfg with freq := { cfg.freq with
      fclk := cfg.pll
      hclk := hclk
      pclk := cfg.pll / cfg.divs.pDivisor
      hclkTns := 1000000000 / (hclk / 10) } }

def setdivsValue (cfg : Config) (olddiv : BitVec 32) : BitVec 32 :=
  let clkdiv := olddiv &&& ~~~armdivn
  let clkdiv := clkdiv &&& ~~~hdivnMask
  let clkdiv := clkdiv &&& ~~~pdivn
  let clkdiv := if cfg.divs.armDivisor = 2 then clkdiv ||| armdivn else clkdiv
  let clkdiv := clkdiv ||| (BitVec.ofNat 32 (cfg.divs.hDivisor / cfg.divs.armDivisor) - 1)
  if cfg.divs.pDivisor = cfg.divs.hDivisor * 2 then clkdiv ||| pdivn else clkdiv

/-- The clock scalings s3c2412_init_clocks works out: hclk and pclk. -/
def initClocks (fclk : Nat) (clkdivn : BitVec 32) : Nat × Nat :=
  let hclk := fclk / ((clkdivn &&& hdivnMask).toNat + 1)
  let hclk := hclk / (if clkdivn &&& armdivn ≠ 0 then 2 else 1)
  (hclk, hclk / (if clkdivn &&& pdivn ≠ 0 then 2 else 1))

def dividerMask : BitVec 32 := armdivn ||| hdivnMask ||| pdivn

structure Chosen (cfg new : Config) (armdiv hdiv pdiv : Nat) : Prop where
  arm : armdiv = 1 ∨ armdiv = 2
  lower : 1 ≤ hdiv
  upper : hdiv ≤ 4
  half : pdiv = 1 ∨ pdiv = 2
  divs : new.divs = ⟨pdiv * hdiv * armdiv, hdiv * armdiv, armdiv⟩
  pll : new.pll = cfg.pll
  armclk : new.freq.armclk = cfg.freq.armclk
  hclk : new.freq.hclk = cfg.freq.fclk / armdiv / hdiv
  pclk : new.freq.pclk = cfg.freq.fclk / armdiv / hdiv / pdiv

theorem pickArmdiv_cases (fclk armclk : Nat) :
    pickArmdiv fclk armclk = 1 ∨ pickArmdiv fclk armclk = 2 := by
  simp only [pickArmdiv]
  split <;> split <;> omega

theorem pickHdiv_positive (armclk hclkMax : Nat) : 1 ≤ pickHdiv armclk hclkMax := by
  simp only [pickHdiv]
  split <;> omega

theorem pickPdiv_positive (hclk pclkMax : Nat) : 1 ≤ pickPdiv hclk pclkMax := by
  simp only [pickPdiv]
  split <;> split <;> omega

theorem calcdivs_chosen {max : Limits} {cfg new : Config}
    (ok : cpufreqCalcdivs max cfg = some new) :
    ∃ armdiv hdiv pdiv, Chosen cfg new armdiv hdiv pdiv := by
  simp only [cpufreqCalcdivs] at ok
  generalize (if max.hclk > cfg.freq.armclk then cfg.freq.armclk else max.hclk) = hclkMax at ok
  split at ok
  · contradiction
  · rename_i upToFour
    split at ok
    · contradiction
    · rename_i upToTwo
      cases Option.some.inj ok
      refine ⟨_,_,_,pickArmdiv_cases _ _,pickHdiv_positive _ _,by omega,?_,rfl,rfl,rfl,rfl,rfl⟩
      have atLeastOne := pickPdiv_positive (cfg.freq.fclk /
        pickArmdiv cfg.freq.fclk cfg.freq.armclk /
          pickHdiv (cfg.freq.fclk / pickArmdiv cfg.freq.fclk cfg.freq.armclk) hclkMax) max.pclk
      omega

def dividerBits (armdiv hdiv pdiv : Nat) : BitVec 32 :=
  (if armdiv = 2 then armdivn else 0) ||| BitVec.ofNat 32 (hdiv - 1) |||
    (if pdiv = 2 then pdivn else 0)

theorem Chosen.four {cfg new : Config} {armdiv hdiv pdiv : Nat}
    (chosen : Chosen cfg new armdiv hdiv pdiv) :
    hdiv = 1 ∨ hdiv = 2 ∨ hdiv = 3 ∨ hdiv = 4 := by
  have lower := chosen.lower
  have upper := chosen.upper
  omega

theorem Chosen.setdivs {cfg new : Config} {armdiv hdiv pdiv : Nat}
    (chosen : Chosen cfg new armdiv hdiv pdiv) (olddiv : BitVec 32) :
    setdivsValue new olddiv = write olddiv dividerMask (dividerBits armdiv hdiv pdiv) := by
  have cleared : olddiv &&& ~~~armdivn &&& ~~~hdivnMask &&& ~~~pdivn =
      olddiv &&& ~~~dividerMask := by
    ext i hi
    simp only [dividerMask, BitVec.getElem_and, BitVec.getElem_or, BitVec.getElem_not]
    cases armdivn[i] <;> cases hdivnMask[i] <;> cases pdivn[i] <;> simp
  simp only [setdivsValue, chosen.divs, cleared]
  rcases chosen.arm with rfl | rfl <;> rcases chosen.half with rfl | rfl <;>
    rcases chosen.four with rfl | rfl | rfl | rfl <;>
    simp [dividerBits, write, BitVec.or_assoc]

theorem Chosen.bits {cfg new : Config} {armdiv hdiv pdiv : Nat}
    (chosen : Chosen cfg new armdiv hdiv pdiv) :
    dividerBits armdiv hdiv pdiv &&& dividerMask = dividerBits armdiv hdiv pdiv ∧
    (dividerBits armdiv hdiv pdiv &&& hdivnMask).toNat + 1 = hdiv ∧
    (if dividerBits armdiv hdiv pdiv &&& armdivn ≠ 0 then 2 else 1) = armdiv ∧
    (if dividerBits armdiv hdiv pdiv &&& pdivn ≠ 0 then 2 else 1) = pdiv := by
  rcases chosen.arm with rfl | rfl <;> rcases chosen.half with rfl | rfl <;>
    rcases chosen.four with rfl | rfl | rfl | rfl <;> decide

theorem Chosen.initClocks_setdivs {cfg new : Config} {armdiv hdiv pdiv : Nat}
    (chosen : Chosen cfg new armdiv hdiv pdiv) (fclk : Nat) (olddiv : BitVec 32) :
    initClocks fclk (setdivsValue new olddiv) =
      (fclk / hdiv / armdiv, fclk / hdiv / armdiv / pdiv) := by
  obtain ⟨_,hbits,armbit,pbit⟩ := chosen.bits
  simp only [initClocks, chosen.setdivs, write_inside (show hdivnMask &&& dividerMask = _ from rfl),
    write_inside (show armdivn &&& dividerMask = _ from rfl),
    write_inside (show pdivn &&& dividerMask = _ from rfl), hbits, armbit, pbit]

theorem Chosen.cpufreqCalc_freq {cfg new : Config} {armdiv hdiv pdiv : Nat}
    (chosen : Chosen cfg new armdiv hdiv pdiv) :
    (cpufreqCalc new).freq.hclk = cfg.pll / hdiv / armdiv ∧
    (cpufreqCalc new).freq.pclk = cfg.pll / hdiv / armdiv / pdiv := by
  simp only [cpufreqCalc, chosen.divs, chosen.pll, Nat.div_div_eq_div_mul]
  refine ⟨trivial,?_⟩
  rw [Nat.mul_comm (hdiv * armdiv) pdiv, Nat.mul_assoc]

def Config.running (cfg : Config) (fclk : Nat) : Config :=
  { cfg with pll := fclk, freq := { cfg.freq with fclk := fclk } }

/-- The value written to CLKDIVN decodes to the rates that were calculated, which are the
    ones the divisors were chosen for, and nothing but the divider fields changes. -/
theorem setdivs_decodes (max : Limits) (cfg new : Config) (fclk : Nat) (olddiv : BitVec 32)
    (ok : cpufreqCalcdivs max (cfg.running fclk) = some new) :
    initClocks fclk (setdivsValue (cpufreqCalc new) olddiv) =
      ((cpufreqCalc new).freq.hclk, (cpufreqCalc new).freq.pclk) ∧
    (cpufreqCalc new).freq.hclk = new.freq.hclk ∧ (cpufreqCalc new).freq.pclk = new.freq.pclk ∧
    ∀ i, (armdivn ||| hdivnMask ||| pdivn).getLsbD i = false →
      (setdivsValue (cpufreqCalc new) olddiv).getLsbD i = olddiv.getLsbD i := by
  obtain ⟨armdiv,hdiv,pdiv,chosen⟩ := calcdivs_chosen ok
  obtain ⟨hclk,pclk⟩ := chosen.cpufreqCalc_freq
  have swap : fclk / hdiv / armdiv = fclk / armdiv / hdiv := Nat.div_right_comm ..
  have same : setdivsValue (cpufreqCalc new) olddiv = setdivsValue new olddiv := rfl
  rw [same]
  refine ⟨?_,?_,?_,?_⟩
  · rw [chosen.initClocks_setdivs, hclk, pclk]
    rfl
  · rw [hclk, chosen.hclk]
    exact swap
  · rw [pclk, chosen.pclk]
    exact congrArg (· / pdiv) swap
  · intro i outside
    rw [chosen.setdivs]
    exact write_outside chosen.bits.1 outside

def infoMax : Limits := { hclk := 100000000, pclk := 50000000 }

def fullSpeed : Config :=
  { freq := { fclk := 0, armclk := 200000000, hclkTns := 0, hclk := 0, pclk := 0 }
    pll := 0
    divs := { pDivisor := 0, hDivisor := 0, armDivisor := 0 } }

theorem full_speed_decodes : ∃ new, cpufreqCalcdivs infoMax (fullSpeed.running 200000000) = some new ∧
    initClocks 200000000 (setdivsValue (cpufreqCalc new) 0x1b) = (100000000, 50000000) ∧
    (setdivsValue (cpufreqCalc new) 0x1b).getLsbD 4 = true := by
  have ok : cpufreqCalcdivs infoMax (fullSpeed.running 200000000) = some _ := rfl
  obtain ⟨decoded,_,_,kept⟩ := setdivs_decodes infoMax fullSpeed _ 200000000 0x1b ok
  refine ⟨_,ok,?_,?_⟩
  · rw [decoded]
    rfl
  · rw [kept 4 rfl]
    rfl

end S3c2412
