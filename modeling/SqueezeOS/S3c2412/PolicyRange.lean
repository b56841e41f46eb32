import SqueezeOS.S3c2412.Limits

/- The divisions and the product that s3c24xx_cpufreq_target makes, for the frequencies that
   the policy of s3c24xx_cpufreq_init allows. -/
namespace S3c2412

inductive Fault where
  | divideByZero
  | wrapped
  deriving DecidableEq, Repr

def checkedDiv (a b : Nat) : Except Fault Nat :=
  if b = 0 then .error .divideByZero else .ok (a / b)

def checkedMul (a b : Nat) : Except Fault Nat :=
  if a * b < 2 ^ 32 then .ok (a * b) else .error .wrapped

def checkedGetcur (s : Cpu) : Except Fault Config := do
  let armclk := if s.dvs then s.hclk else s.mpll
  let armDivisor ← checkedDiv s.fclk armclk
  let hDivisor ← checkedDiv s.fclk s.hclk
  let pDivisor ← checkedDiv s.fclk s.pclk
  return { freq := { fclk := s.fclk, armclk := armclk, hclkTns := 0, hclk := s.hclk
                     pclk := s.pclk }
           pll := s.fclk
           divs := { armDivisor := armDivisor, hDivisor := hDivisor, pDivisor := pDivisor } }

def checkedCalcdivs (max : Limits) (cfg : Config) : Except Fault (Option Config) := do
  let hclkMax := if max.hclk > cfg.freq.armclk then cfg.freq.armclk else max.hclk
  let armdiv ← checkedDiv cfg.freq.fclk cfg.freq.armclk
  let armdiv := if armdiv < 1 then 1 else armdiv
  let armdiv := if armdiv > 2 then 2 else armdiv
  let armclk ← checkedDiv cfg.freq.fclk armdiv
  let hdiv ← checkedDiv armclk hclkMax
  let hdiv := if hdiv < 1 then 1 else hdiv
  let hclk ← checkedDiv armclk hdiv
  if hdiv > 4 then return none
  let pdiv := if hclk > max.pclk then 2 else 1
  let pclk ← checkedDiv hclk pdiv
  let pdiv := if pclk > max.pclk then pdiv + 1 else pdiv
  let pclk ← checkedDiv hclk pdiv
  if pdiv > 2 then return none
  return some { cfg with
    freq := { cfg.freq with hclk := hclk, pclk := pclk }
    divs := { armDivisor := armdiv, hDivisor := hdiv * armdiv, pDivisor := pdiv * hdiv * armdiv } }

def checkedCalc (cfg : Config) : Except Fault Config := do
  let hclk ← checkedDiv cfg.pll cfg.divs.hDivisor
  let pclk ← checkedDiv cfg.pll cfg.divs.pDivisor
  let hclkTns ← checkedDiv 1000000000 (hclk / 10)
  return { cfg with freq := { cfg.freq with
    fclk := cfg.pll, hclk := hclk, pclk := pclk, hclkTns := hclkTns } }

/-- `settings` with its divisions checked, and the product that makes Hz of kHz. -/
def checkedSettings (board : Board) (max : Limits) (s : Cpu) (targetFreq : Nat) :
    Except Fault (Option Config) := do
  let cur ← checkedGetcur s
  let armclk ← checkedMul targetFreq 1000
  let wanted : Config :=
    { freq := { fclk := cur.pll, armclk := armclk, hclkTns := 0, hclk := 0, pclk := 0 }
      pll := cur.pll
      divs := { pDivisor := 0, hDivisor := 0, armDivisor := 0 } }
  match ← checkedCalcdivs max wanted with
  | none => return none
  | some new =>
    let new ← checkedCalc new
    return if new.freq.hclk ≠ cur.freq.hclk then (iotimingCalc board).map fun _ => new else some new

theorem checkedDiv_ok {a b : Nat} (nonzero : b ≠ 0) : checkedDiv a b = .ok (a / b) :=
  if_neg nonzero

theorem checkedGetcur_ok {s : Cpu} (hclk : s.hclk ≠ 0) (pclk : s.pclk ≠ 0) (mpll : s.mpll ≠ 0) :
    checkedGetcur s = .ok (cpufreqGetcur s) := by
  have armclk : (if s.dvs then s.hclk else s.mpll) ≠ 0 := by
    split <;> assumption
  simp only [checkedGetcur, checkedDiv_ok armclk, checkedDiv_ok hclk, checkedDiv_ok pclk]
  rfl

theorem ok_bind {α β : Type} (a : α) (f : α → Except Fault β) : (.ok a >>= f) = f a :=
  rfl

theorem checkedCalcdivs_ok {max : Limits} {cfg : Config} (limit : 0 < max.hclk)
    (armclk : cfg.freq.armclk ≠ 0) :
    checkedCalcdivs max cfg = .ok (cpufreqCalcdivs max cfg) := by
  have least : hclkMax max cfg.freq ≠ 0 := (hclkMax_positive (by omega) limit).ne'
  have arm : pickArmdiv cfg.freq.fclk cfg.freq.armclk ≠ 0 := by
    have either := pickArmdiv_cases cfg.freq.fclk cfg.freq.armclk
    omega
  have h : chosenHdiv max cfg.freq ≠ 0 := Nat.one_le_iff_ne_zero.mp (pickHdiv_positive _ _)
  have p : pickPdiv (chosenHclk max cfg.freq) max.pclk ≠ 0 :=
    Nat.one_le_iff_ne_zero.mp (pickPdiv_positive _ _)
  have first : (if chosenHclk max cfg.freq > max.pclk then 2 else 1) ≠ 0 := by
    split <;> decide
  unfold checkedCalcdivs
  simp only [checkedDiv_ok armclk, ok_bind]
  change (checkedDiv cfg.freq.fclk (pickArmdiv cfg.freq.fclk cfg.freq.armclk) >>= _) = _
  rw [checkedDiv_ok arm, ok_bind]
  change (checkedDiv (armRate cfg.freq) (hclkMax max cfg.freq) >>= _) = _
  rw [checkedDiv_ok least, ok_bind]
  change (checkedDiv (armRate cfg.freq) (chosenHdiv max cfg.freq) >>= _) = _
  rw [checkedDiv_ok h, ok_bind]
  change (if chosenHdiv max cfg.freq > 4 then Except.ok none else
      checkedDiv (chosenHclk max cfg.freq)
        (if chosenHclk max cfg.freq > max.pclk then 2 else 1) >>= _) =
    Except.ok (if chosenHdiv max cfg.freq > 4 then none else
      if pickPdiv (chosenHclk max cfg.freq) max.pclk > 2 then none else _)
  split
  · rfl
  · rw [checkedDiv_ok first, ok_bind]
    change (checkedDiv (chosenHclk max cfg.freq)
      (pickPdiv (chosenHclk max cfg.freq) max.pclk) >>= _) = _
    rw [checkedDiv_ok p, ok_bind]
    change (if pickPdiv (chosenHclk max cfg.freq) max.pclk > 2 then Except.ok none else
      Except.ok _) = _
    split
    · rfl
    · rfl

theorem checkedCalcdivs_zero {max : Limits} {cfg : Config} (zero : cfg.freq.armclk = 0) :
    checkedCalcdivs max cfg = .error .divideByZero := by
  simp only [checkedCalcdivs, checkedDiv, zero, if_pos]
  rfl

theorem checkedCalc_ok {cfg : Config} (h : cfg.divs.hDivisor ≠ 0) (p : cfg.divs.pDivisor ≠ 0) :
    checkedCalc cfg = if 10 ≤ cfg.pll / cfg.divs.hDivisor then .ok (cpufreqCalc cfg)
      else .error .divideByZero := by
  simp only [checkedCalc, checkedDiv_ok h, checkedDiv_ok p, ok_bind]
  split
  · rename_i ten
    rw [checkedDiv_ok (by omega), ok_bind]
    rfl
  · rename_i few
    have zero : cfg.pll / cfg.divs.hDivisor / 10 = 0 := Nat.div_eq_of_lt (by omega)
    rw [zero]
    rfl

theorem ten_le_chosenHclk_iff {max : Limits} {freq : Freq} (limit : 1000 ≤ max.hclk)
    (requested : 1000 ≤ freq.armclk) : 10 ≤ chosenHclk max freq ↔ 10 ≤ freq.fclk := by
  have least : 1000 ≤ hclkMax max freq := by
    unfold hclkMax
    split <;> omega
  constructor
  · intro ten
    calc 10 ≤ chosenHclk max freq := ten
      _ ≤ armRate freq := Nat.div_le_self ..
      _ ≤ freq.fclk := Nat.div_le_self ..
  · intro ten
    have rate : 10 ≤ armRate freq := by
      rcases Nat.lt_or_ge freq.fclk (2 * freq.armclk) with once | twice
      · rwa [armRate_below once]
      · rw [armRate_twice (by omega) twice]
        omega
    rcases Nat.lt_or_ge (armRate freq) (hclkMax max freq) with below | above
    · have one : chosenHdiv max freq = 1 := by
        rw [chosenHdiv, pickHdiv, Nat.div_eq_of_lt below]
        rfl
      rwa [chosenHclk, one, Nat.div_one]
    · calc 10 ≤ hclkMax max freq := by omega
        _ ≤ chosenHclk max freq := pickHdiv_quotient (by omega) above

theorem calcdivs_accepts_slow {max : Limits} {cfg : Config} (limit : 1000 ≤ max.hclk)
    (half : 5 ≤ max.pclk) (requested : 1000 ≤ cfg.freq.armclk) (slow : cfg.freq.fclk < 10) :
    ∃ new, cpufreqCalcdivs max cfg = some new := by
  have rate : armRate cfg.freq = cfg.freq.fclk := armRate_below (by omega)
  have least : 1000 ≤ hclkMax max cfg.freq := by
    unfold hclkMax
    split <;> omega
  have one : chosenHdiv max cfg.freq = 1 := by
    rw [chosenHdiv, rate, pickHdiv, Nat.div_eq_of_lt (by omega)]
    rfl
  refine calcdivs_accepts.mpr ⟨by omega,?_⟩
  rw [chosenHclk, one, rate]
  omega

structure Info extends Limits where
  fclk : Nat
  deriving DecidableEq, Repr

def cpufreqInfo : Info := { infoMax with fclk := 200000000 }
def cpufreqInfo266 : Info := { info266Max with fclk := 266000000 }

structure Policy where
  min : Nat
  max : Nat
  deriving DecidableEq, Repr

def cpufreqInit (info : Info) : Policy := { min := 0, max := info.fclk }

def Policy.Contains (policy : Policy) (targetFreq : Nat) : Prop :=
  policy.min ≤ targetFreq ∧ targetFreq ≤ policy.max

structure Cpu.Running (s : Cpu) : Prop where
  fclk : s.fclk ≠ 0
  hclk : s.hclk ≠ 0
  pclk : s.pclk ≠ 0
  mpll : s.mpll ≠ 0

def Safe (board : Board) (max : Limits) (s : Cpu) (targetFreq : Nat) : Prop :=
  ∃ found, checkedSettings board max s targetFreq = .ok found

theorem Chosen.nonzero {cfg new : Config} {armdiv hdiv pdiv : Nat}
    (chosen : Chosen cfg new armdiv hdiv pdiv) :
    new.divs.hDivisor ≠ 0 ∧ new.divs.pDivisor ≠ 0 := by
  have lower := chosen.lower
  rw [chosen.divs]
  rcases chosen.arm with rfl | rfl <;> rcases chosen.half with rfl | rfl
  all_goals
    dsimp only
    omega

section
variable {board : Board} {max : Limits} {s : Cpu} {targetFreq : Nat}

theorem checkedSettings_wrapped (running : s.Running) (wraps : 2 ^ 32 ≤ targetFreq * 1000) :
    checkedSettings board max s targetFreq = .error .wrapped := by
  have product : checkedMul targetFreq 1000 = .error .wrapped := if_neg (by omega)
  simp only [checkedSettings, checkedGetcur_ok running.hclk running.pclk running.mpll, ok_bind,
    product]
  rfl

theorem checkedSettings_zero (running : s.Running) :
    checkedSettings board max s 0 = .error .divideByZero := by
  have product : checkedMul 0 1000 = .ok 0 := rfl
  simp only [checkedSettings, checkedGetcur_ok running.hclk running.pclk running.mpll, ok_bind,
    product]
  rw [checkedCalcdivs_zero rfl]
  rfl

theorem checkedSettings_divided (running : s.Running) (limit : 0 < max.hclk)
    (requested : 0 < targetFreq) (fits : targetFreq * 1000 < 2 ^ 32) :
    checkedSettings board max s targetFreq =
      match cpufreqCalcdivs max (wanted s targetFreq) with
      | none => .ok none
      | some new => if 10 ≤ new.pll / new.divs.hDivisor then
          .ok (settings board max s targetFreq) else .error .divideByZero := by
  have product : checkedMul targetFreq 1000 = .ok (wanted s targetFreq).freq.armclk := by
    rw [checkedMul, if_pos fits]
    exact congrArg Except.ok (Nat.mod_eq_of_lt fits).symm
  have nonzero : (wanted s targetFreq).freq.armclk ≠ 0 := by
    change targetFreq * 1000 % 2 ^ 32 ≠ 0
    omega
  simp only [checkedSettings, checkedGetcur_ok running.hclk running.pclk running.mpll, ok_bind,
    product]
  change (checkedCalcdivs max (wanted s targetFreq) >>= _) = _
  rw [checkedCalcdivs_ok limit nonzero, ok_bind]
  cases divided : cpufreqCalcdivs max (wanted s targetFreq) with
  | none => rfl
  | some new =>
    obtain ⟨h,p⟩ := (calcdivs_picked divided).nonzero
    have accepted : settings board max s targetFreq =
        if (cpufreqCalc new).freq.hclk ≠ (cpufreqGetcur s).freq.hclk then
          (iotimingCalc board).map fun _ => cpufreqCalc new else some (cpufreqCalc new) := by
      change (match cpufreqCalcdivs max (wanted s targetFreq) with
        | none => none
        | some new => _) = _
      rw [divided]
    simp only [checkedCalc_ok h p]
    split
    · rw [ok_bind, accepted]
      rfl
    · rfl

theorem checkedSettings_eq (running : s.Running) (limit : 0 < max.hclk)
    {found : Option Config} (ok : checkedSettings board max s targetFreq = .ok found) :
    found = settings board max s targetFreq := by
  rcases Nat.eq_zero_or_pos targetFreq with rfl | requested
  · rw [checkedSettings_zero running] at ok
    contradiction
  · rcases Nat.lt_or_ge (targetFreq * 1000) (2 ^ 32) with fits | wraps
    · rw [checkedSettings_divided running limit requested fits] at ok
      split at ok
      · rename_i refused
        have none : settings board max s targetFreq = none := by
          change (match cpufreqCalcdivs max (wanted s targetFreq) with
            | none => none
            | some new => _) = _
          rw [refused]
        rw [none]
        exact (Except.ok.inj ok).symm
      · split at ok
        · exact (Except.ok.inj ok).symm
        · contradiction
    · rw [checkedSettings_wrapped running wraps] at ok
      contradiction

theorem wanted_armclk (requested : 0 < targetFreq) (fits : targetFreq * 1000 < 2 ^ 32) :
    1000 ≤ (wanted s targetFreq).freq.armclk := by
  change 1000 ≤ targetFreq * 1000 % 2 ^ 32
  rw [Nat.mod_eq_of_lt fits]
  omega

theorem divided_ten_iff (limit : 1000 ≤ max.hclk) (requested : 0 < targetFreq)
    (fits : targetFreq * 1000 < 2 ^ 32) {new : Config}
    (divided : cpufreqCalcdivs max (wanted s targetFreq) = some new) :
    10 ≤ new.pll / new.divs.hDivisor ↔ 10 ≤ s.fclk := by
  have hclk : new.pll / new.divs.hDivisor = chosenHclk max (wanted s targetFreq).freq :=
    ((calcdivs_picked divided).calculated rfl).hclk
  rw [hclk]
  exact ten_le_chosenHclk_iff limit (wanted_armclk requested fits)

/-- The arithmetic is safe for every target but zero, up to the last one whose Hz fit in 32
    bits, as long as fclk is 10 Hz or more. -/
theorem target_safe_iff (part : max = cpufreqInfo.toLimits ∨ max = cpufreqInfo266.toLimits)
    (running : s.Running) :
    Safe board max s targetFreq ↔
      0 < targetFreq ∧ targetFreq * 1000 < 2 ^ 32 ∧ 10 ≤ s.fclk := by
  have limits : 1000 ≤ max.hclk ∧ 5 ≤ max.pclk := by
    rcases part with rfl | rfl <;> decide
  have limit : 0 < max.hclk := by omega
  constructor
  · rintro ⟨found,ok⟩
    rcases Nat.eq_zero_or_pos targetFreq with rfl | requested
    · rw [checkedSettings_zero running] at ok
      contradiction
    · rcases Nat.lt_or_ge (targetFreq * 1000) (2 ^ 32) with fits | wraps
      · refine ⟨requested,fits,?_⟩
        by_contra slow
        obtain ⟨new,divided⟩ := calcdivs_accepts_slow limits.1 limits.2
          (wanted_armclk requested fits) (Nat.lt_of_not_le slow)
        have few := (divided_ten_iff limits.1 requested fits divided).not.mpr slow
        simp only [checkedSettings_divided running limit requested fits, divided, if_neg few] at ok
        contradiction
      · rw [checkedSettings_wrapped running wraps] at ok
        contradiction
  · rintro ⟨requested,fits,fast⟩
    rw [Safe, checkedSettings_divided running limit requested fits]
    cases divided : cpufreqCalcdivs max (wanted s targetFreq) with
    | none => exact ⟨none,rfl⟩
    | some new =>
      have ten := (divided_ten_iff limits.1 requested fits divided).mpr fast
      exact ⟨settings board max s targetFreq,if_pos ten⟩

end

theorem boot_running : (boot 200000000 ⟨0x5,780⟩).Running :=
  ⟨by decide,by decide,by decide,by decide⟩

theorem target_safe_200MHz :
    (boot 200000000 ⟨0x5,780⟩).Running ∧ (cpufreqInit cpufreqInfo).Contains 200000 ∧
    Safe jiveCpufreq cpufreqInfo.toLimits (boot 200000000 ⟨0x5,780⟩) 200000 := by
  refine ⟨boot_running,⟨by decide,by decide⟩,?_⟩
  exact (target_safe_iff (.inl rfl) boot_running).mpr ⟨by decide,by decide,by decide⟩

/-- The lower end of the range is a request for 0 Hz, which fclk is divided by; the upper end
    is in Hz, and its product wraps. -/
theorem target_unsafe_ends :
    (boot 200000000 ⟨0x5,780⟩).Running ∧ (cpufreqInit cpufreqInfo).Contains 0 ∧
    ¬Safe jiveCpufreq cpufreqInfo.toLimits (boot 200000000 ⟨0x5,780⟩) 0 ∧
    (cpufreqInit cpufreqInfo).Contains 200000000 ∧
    ¬Safe jiveCpufreq cpufreqInfo.toLimits (boot 200000000 ⟨0x5,780⟩) 200000000 := by
  refine ⟨boot_running,⟨by decide,by decide⟩,?_,⟨by decide,by decide⟩,?_⟩
  · rintro ⟨found,ok⟩
    rw [checkedSettings_zero boot_running] at ok
    contradiction
  · rintro ⟨found,ok⟩
    rw [checkedSettings_wrapped boot_running (by decide)] at ok
    contradiction

end S3c2412
