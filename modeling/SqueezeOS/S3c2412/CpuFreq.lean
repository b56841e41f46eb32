import SqueezeOS.S3c2412.Clkdivn
import SqueezeOS.StepRuns
import Mathlib.Tactic.Ring

/- Changing the frequency of an S3C2412 for which no PLL table is registered: fclk stays
   and only the dividers and the DRAM refresh count are written. -/
namespace S3c2412
open BitFields StepRuns

structure Board where
  refresh : Nat
  banks : Fin 8 → Bool

structure Registers where
  clkdivn : BitVec 32
  refresh : BitVec 32
  deriving DecidableEq, Repr

/-- The rates are those of the struct clk of each clock, and `dvs` says that armclk has hclk
    for its parent. `written` is not in the driver: it holds the registers as each write to
    one of them left them, the latest first. -/
structure Cpu where
  mpll : Nat
  fclk : Nat
  hclk : Nat
  pclk : Nat
  dvs : Bool
  regs : Registers
  written : List Registers
  deriving DecidableEq, Repr

def boot (fclk : Nat) (regs : Registers) : Cpu :=
  { mpll := fclk, fclk := fclk, hclk := (initClocks fclk regs.clkdivn).1
    pclk := (initClocks fclk regs.clkdivn).2, dvs := regs.clkdivn &&& dvsen ≠ 0
    regs := regs, written := [] }

def rawWritel (regs : Registers) (s : Cpu) : Cpu :=
  { s with regs := regs, written := regs :: s.written }

/-- hclk_tns is left unset here. -/
def cpufreqGetcur (s : Cpu) : Config :=
  let armclk := if s.dvs then s.hclk else s.mpll
  { freq := { fclk := s.fclk, armclk := armclk, hclkTns := 0, hclk := s.hclk, pclk := s.pclk }
    pll := s.fclk
    divs := { armDivisor := s.fclk / armclk, hDivisor := s.fclk / s.hclk
              pDivisor := s.fclk / s.pclk } }

/-- No IO bank can be set up, so that one in use is an error. -/
def iotimingCalc (board : Board) : Option Unit :=
  if (List.ofFn board.banks).countP id > 0 then none else some ()

/-- In Hz and in ns, both reduced by 10 and hclk by another 10, in 32 bits. -/
def cpufreqSetrefresh (board : Board) (cfg : Config) (s : Cpu) : Cpu :=
  let refresh := board.refresh / 10
  let refresh := refresh * (cfg.freq.hclk / 100) % 2 ^ 32
  let refresh := refresh / (1 * 1000 * 1000)
  rawWritel { s.regs with refresh := BitVec.ofNat 32 refresh } s

def setparentArmclk (dvs : Bool) (s : Cpu) : Cpu :=
  let clkdiv := s.regs.clkdivn &&& ~~~dvsen ||| (if dvs then dvsen else 0)
  { rawWritel { s.regs with clkdivn := clkdiv } s with dvs := dvs }

def cpufreqSetdivs (cfg : Config) (s : Cpu) : Cpu :=
  setparentArmclk (cfg.freq.armclk ≤ cfg.freq.hclk)
    (rawWritel { s.regs with clkdivn := setdivsValue cfg s.regs.clkdivn } s)

def settings (board : Board) (max : Limits) (s : Cpu) (targetFreq : Nat) : Option Config :=
  let cur := cpufreqGetcur s
  let wanted : Config :=
    { freq := { fclk := cur.pll, armclk := targetFreq * 1000 % 2 ^ 32, hclkTns := 0, hclk := 0
                pclk := 0 }
      pll := cur.pll
      divs := { pDivisor := 0, hDivisor := 0, armDivisor := 0 } }
  match cpufreqCalcdivs max wanted with
  | none => none
  | some new =>
    let new := cpufreqCalc new
    if new.freq.hclk ≠ cur.freq.hclk then (iotimingCalc board).map fun _ => new else some new

/-- s3c24xx_cpufreq_target from where the settings are known. With fclk as it was there is no
    PLL to set, and s3c2412_iotiming_set does nothing. -/
def change (board : Board) (new : Config) (s : Cpu) : Cpu :=
  let cur := cpufreqGetcur s
  let s := { s with mpll := new.pll, fclk := new.freq.fclk, hclk := new.freq.hclk
                    pclk := new.freq.pclk }
  let s := if new.freq.hclk < cur.freq.hclk then cpufreqSetrefresh board new s else s
  let s := cpufreqSetdivs new s
  if new.freq.hclk > cur.freq.hclk then cpufreqSetrefresh board new s else s

def cpufreqTarget (board : Board) (max : Limits) (s : Cpu) (targetFreq : Nat) : Cpu :=
  match settings board max s targetFreq with
  | none => s
  | some new => change board new s

def step (board : Board) (max : Limits) (s : Cpu) (targetFreq : Nat) : Option Cpu :=
  some (cpufreqTarget board max s targetFreq)

def selected (fclk : Nat) (regs : Registers) : Nat := (initClocks fclk regs.clkdivn).1

def InTime (board : Board) (fclk : Nat) (regs : Registers) : Prop :=
  regs.refresh.toNat * 10 ^ 9 ≤ board.refresh * selected fclk regs

def Refreshed (board : Board) (fclk : Nat) (s : Cpu) : Prop :=
  InTime board fclk s.regs ∧ ∀ regs ∈ s.written, InTime board fclk regs

def Rated (board : Board) (max : Limits) (s : Cpu) (targetFreq : Nat) : Prop :=
  ∀ new, settings board max s targetFreq = some new → new.freq.hclk ≤ 133000000

instance (board : Board) (max : Limits) (s : Cpu) (targetFreq : Nat) :
    Decidable (Rated board max s targetFreq) :=
  match found : settings board max s targetFreq with
  | none => isTrue (by simp [Rated, found])
  | some new => decidable_of_iff (new.freq.hclk ≤ 133000000) (by simp [Rated, found])

def refreshCount (board : Board) (hclk : Nat) : Nat := board.refresh / 10 * (hclk / 100) / 10 ^ 6

structure Inv (board : Board) (fclk : Nat) (s : Cpu) : Prop where
  pll : s.fclk = fclk
  rate : s.hclk = selected fclk s.regs
  refreshed : Refreshed board fclk s

theorem boot_inv {board : Board} {fclk : Nat} {regs : Registers}
    (inTime : InTime board fclk regs) : Inv board fclk (boot fclk regs) :=
  ⟨rfl,rfl,inTime,by simp [boot]⟩

def wanted (s : Cpu) (targetFreq : Nat) : Config :=
  { freq := { fclk := s.fclk, armclk := targetFreq * 1000 % 2 ^ 32, hclkTns := 0, hclk := 0
              pclk := 0 }
    pll := s.fclk
    divs := { pDivisor := 0, hDivisor := 0, armDivisor := 0 } }

theorem settings_divided {board : Board} {max : Limits} {s : Cpu} {targetFreq : Nat}
    {new : Config} (ok : settings board max s targetFreq = some new) :
    ∃ divided, cpufreqCalcdivs max (wanted s targetFreq) = some divided ∧
      new = cpufreqCalc divided := by
  unfold settings at ok
  simp only at ok
  split at ok
  · contradiction
  · rename_i divided calculated
    refine ⟨divided,calculated,?_⟩
    split at ok
    · obtain ⟨_,_,same⟩ := Option.map_eq_some_iff.mp ok
      exact same.symm
    · exact (Option.some.inj ok).symm

theorem settings_selected {board : Board} {max : Limits} {s : Cpu} {targetFreq : Nat}
    {new : Config} (ok : settings board max s targetFreq = some new) :
    new.freq.fclk = s.fclk ∧
    ∀ olddiv, (initClocks s.fclk (setdivsValue new olddiv)).1 = new.freq.hclk := by
  obtain ⟨divided,calculated,rfl⟩ := settings_divided ok
  obtain ⟨armdiv,hdiv,pdiv,chosen⟩ := calcdivs_chosen calculated
  refine ⟨chosen.pll,?_⟩
  intro olddiv
  have value : setdivsValue (cpufreqCalc divided) olddiv = setdivsValue divided olddiv := rfl
  rw [value, chosen.initClocks_setdivs, chosen.cpufreqCalc_freq.1]
  rfl

theorem initClocks_dvsen (fclk : Nat) (clkdivn : BitVec 32) (dvs : Bool) :
    initClocks fclk (clkdivn &&& ~~~dvsen ||| (if dvs then dvsen else 0)) =
      initClocks fclk clkdivn := by
  have within : (if dvs then dvsen else 0) &&& dvsen = (if dvs then dvsen else 0) := by
    cases dvs <;> rfl
  have h := write_apart clkdivn within (show hdivnMask &&& dvsen = 0 from rfl)
  have arm := write_apart clkdivn within (show armdivn &&& dvsen = 0 from rfl)
  have p := write_apart clkdivn within (show pdivn &&& dvsen = 0 from rfl)
  unfold write at h arm p
  simp only [initClocks, h, arm, p]

theorem refreshCount_fits {board : Board} {hclk : Nat} (period : board.refresh ≤ 30000)
    (rated : hclk ≤ 133000000) : board.refresh / 10 * (hclk / 100) < 2 ^ 32 := by
  have least : board.refresh / 10 ≤ 3000 := by omega
  have most : hclk / 100 ≤ 1330000 := by omega
  calc board.refresh / 10 * (hclk / 100) ≤ 3000 * 1330000 := Nat.mul_le_mul least most
    _ < 2 ^ 32 := by decide

theorem refreshCount_inTime (board : Board) (hclk : Nat) :
    refreshCount board hclk * 10 ^ 9 ≤ board.refresh * hclk := by
  have period : board.refresh / 10 * 10 ≤ board.refresh := Nat.div_mul_le_self ..
  have clock : hclk / 100 * 100 ≤ hclk := Nat.div_mul_le_self ..
  have count : refreshCount board hclk * 10 ^ 6 ≤ board.refresh / 10 * (hclk / 100) :=
    Nat.div_mul_le_self ..
  calc refreshCount board hclk * 10 ^ 9 = refreshCount board hclk * 10 ^ 6 * 10 ^ 3 := by ring
    _ ≤ board.refresh / 10 * (hclk / 100) * 10 ^ 3 := Nat.mul_le_mul_right _ count
    _ = (board.refresh / 10 * 10) * (hclk / 100 * 100) := by ring
    _ ≤ board.refresh * hclk := Nat.mul_le_mul period clock

theorem Refreshed.rawWritel {board : Board} {fclk : Nat} {s : Cpu} {regs : Registers}
    (refreshed : Refreshed board fclk s) (inTime : InTime board fclk regs) :
    Refreshed board fclk (rawWritel regs s) :=
  ⟨inTime,List.forall_mem_cons.mpr ⟨inTime,refreshed.2⟩⟩

theorem setrefresh_regs {board : Board} {cfg : Config} (s : Cpu)
    (period : board.refresh ≤ 30000) (rated : cfg.freq.hclk ≤ 133000000) :
    (cpufreqSetrefresh board cfg s).regs.clkdivn = s.regs.clkdivn ∧
    (cpufreqSetrefresh board cfg s).regs.refresh.toNat = refreshCount board cfg.freq.hclk := by
  refine ⟨rfl,?_⟩
  have fits := refreshCount_fits period rated
  have smaller : refreshCount board cfg.freq.hclk ≤ board.refresh / 10 * (cfg.freq.hclk / 100) :=
    Nat.div_le_self ..
  simp only [cpufreqSetrefresh, rawWritel, Nat.mod_eq_of_lt fits, BitVec.toNat_ofNat]
  exact Nat.mod_eq_of_lt (Nat.lt_of_le_of_lt smaller fits)

theorem setrefresh_refreshed {board : Board} {cfg : Config} {fclk : Nat} {s : Cpu}
    (period : board.refresh ≤ 30000) (rated : cfg.freq.hclk ≤ 133000000)
    (faster : cfg.freq.hclk ≤ selected fclk s.regs) (refreshed : Refreshed board fclk s) :
    Refreshed board fclk (cpufreqSetrefresh board cfg s) := by
  obtain ⟨clkdivn,count⟩ := setrefresh_regs s period rated
  apply refreshed.rawWritel
  change (cpufreqSetrefresh board cfg s).regs.refresh.toNat * 10 ^ 9 ≤
    board.refresh * selected fclk (cpufreqSetrefresh board cfg s).regs
  rw [count, selected, clkdivn]
  calc refreshCount board cfg.freq.hclk * 10 ^ 9 ≤ board.refresh * cfg.freq.hclk :=
        refreshCount_inTime ..
    _ ≤ board.refresh * selected fclk s.regs := Nat.mul_le_mul_left _ faster

theorem setdivs_selected {cfg : Config} {fclk : Nat} (s : Cpu)
    (selects : ∀ olddiv, (initClocks fclk (setdivsValue cfg olddiv)).1 = cfg.freq.hclk) :
    selected fclk (cpufreqSetdivs cfg s).regs = cfg.freq.hclk ∧
    (cpufreqSetdivs cfg s).regs.refresh = s.regs.refresh := by
  refine ⟨?_,rfl⟩
  simp only [selected, cpufreqSetdivs, setparentArmclk, rawWritel, initClocks_dvsen, selects]

theorem setdivs_refreshed {board : Board} {cfg : Config} {fclk : Nat} {s : Cpu}
    (selects : ∀ olddiv, (initClocks fclk (setdivsValue cfg olddiv)).1 = cfg.freq.hclk)
    (refreshed : Refreshed board fclk s)
    (inTime : s.regs.refresh.toNat * 10 ^ 9 ≤ board.refresh * cfg.freq.hclk) :
    Refreshed board fclk (cpufreqSetdivs cfg s) := by
  have divided : InTime board fclk
      { s.regs with clkdivn := setdivsValue cfg s.regs.clkdivn } := by
    unfold InTime selected
    rw [selects]
    exact inTime
  have parented : InTime board fclk (cpufreqSetdivs cfg s).regs := by
    obtain ⟨hclk,count⟩ := setdivs_selected s selects
    unfold InTime
    rw [hclk, count]
    exact inTime
  exact (refreshed.rawWritel divided).rawWritel parented

def recorded (new : Config) (s : Cpu) : Cpu :=
  { s with mpll := new.pll, fclk := new.freq.fclk, hclk := new.freq.hclk, pclk := new.freq.pclk }

/-- A slower hclk has its refresh count before its dividers, a faster one after them. -/
theorem change_cases (board : Board) (new : Config) (s : Cpu) :
    (new.freq.hclk < s.hclk ∧
      change board new s = cpufreqSetdivs new (cpufreqSetrefresh board new (recorded new s))) ∨
    (new.freq.hclk = s.hclk ∧ change board new s = cpufreqSetdivs new (recorded new s)) ∨
    (s.hclk < new.freq.hclk ∧
      change board new s = cpufreqSetrefresh board new (cpufreqSetdivs new (recorded new s))) := by
  rcases Nat.lt_trichotomy new.freq.hclk s.hclk with slower | same | faster
  · refine .inl ⟨slower,?_⟩
    simp [change, cpufreqGetcur, recorded, slower, Nat.lt_asymm slower]
  · refine .inr (.inl ⟨same,?_⟩)
    simp [change, cpufreqGetcur, recorded, same]
  · refine .inr (.inr ⟨faster,?_⟩)
    simp [change, cpufreqGetcur, recorded, faster, Nat.lt_asymm faster]

structure Changed (board : Board) (fclk : Nat) (new : Config) (s t : Cpu) : Prop where
  refreshed : Refreshed board fclk t
  hclk : selected fclk t.regs = new.freq.hclk
  count : new.freq.hclk ≠ s.hclk → t.regs.refresh.toNat = refreshCount board new.freq.hclk

section
variable {board : Board} {max : Limits} {fclk : Nat} {new : Config} {s : Cpu}

theorem change_changed (period : board.refresh ≤ 30000) (rated : new.freq.hclk ≤ 133000000)
    (selects : ∀ olddiv, (initClocks fclk (setdivsValue new olddiv)).1 = new.freq.hclk)
    (inv : Inv board fclk s) : Changed board fclk new s (change board new s) := by
  obtain ⟨_,rate,refreshed⟩ := inv
  have start : Refreshed board fclk (recorded new s) := refreshed
  rcases change_cases board new s with ⟨slower,changed⟩ | ⟨same,changed⟩ | ⟨faster,changed⟩
  · rw [changed]
    have count := (setrefresh_regs (recorded new s) period rated).2
    obtain ⟨hclk,kept⟩ :=
      setdivs_selected (cpufreqSetrefresh board new (recorded new s)) selects
    have counted : Refreshed board fclk (cpufreqSetrefresh board new (recorded new s)) := by
      rw [rate] at slower
      exact setrefresh_refreshed period rated slower.le start
    refine ⟨setdivs_refreshed selects counted ?_,hclk,?_⟩
    · rw [count]
      exact refreshCount_inTime ..
    · intro _
      rw [kept, count]
  · rw [changed]
    refine ⟨setdivs_refreshed selects start ?_,(setdivs_selected _ selects).1,?_⟩
    · rw [same, rate]
      exact refreshed.1
    · intro other
      exact absurd same other
  · rw [changed]
    have divided : Refreshed board fclk (cpufreqSetdivs new (recorded new s)) := by
      apply setdivs_refreshed selects start
      rw [rate] at faster
      calc s.regs.refresh.toNat * 10 ^ 9 ≤ board.refresh * selected fclk s.regs := refreshed.1
        _ ≤ board.refresh * new.freq.hclk := Nat.mul_le_mul_left _ faster.le
    have hclk := (setdivs_selected (recorded new s) selects).1
    obtain ⟨clkdivn,count⟩ :=
      setrefresh_regs (cpufreqSetdivs new (recorded new s)) period rated
    refine ⟨setrefresh_refreshed period rated hclk.ge divided,?_,fun _ => count⟩
    rw [selected, clkdivn]
    exact hclk

theorem change_rates (board : Board) (new : Config) (s : Cpu) :
    (change board new s).fclk = new.freq.fclk ∧ (change board new s).hclk = new.freq.hclk := by
  rcases change_cases board new s with ⟨_,changed⟩ | ⟨_,changed⟩ | ⟨_,changed⟩
  all_goals
    rw [changed]
    exact ⟨rfl,rfl⟩

theorem step_changed {t : Cpu} {targetFreq : Nat} (period : board.refresh ≤ 30000)
    (inv : Inv board fclk s) (rated : Rated board max s targetFreq)
    (next : step board max s targetFreq = some t) :
    t = s ∨ ∃ new, Inv board fclk t ∧ Changed board fclk new s t := by
  cases Option.some.inj next
  unfold cpufreqTarget
  split
  · exact .inl rfl
  · rename_i new ok
    right
    obtain ⟨pll,selects⟩ := settings_selected ok
    rw [inv.pll] at pll selects
    have changed := change_changed period (rated new ok) selects inv
    obtain ⟨rated,recorded⟩ := change_rates board new s
    exact ⟨new,⟨rated.trans pll,recorded.trans changed.hclk.symm,changed.refreshed⟩,changed⟩

theorem step_inv (period : board.refresh ≤ 30000) (s : Cpu) (targetFreq : Nat) (t : Cpu)
    (inv : Inv board fclk s) (rated : Rated board max s targetFreq)
    (next : step board max s targetFreq = some t) : Inv board fclk t := by
  rcases step_changed period inv rated next with rfl | ⟨new,kept,_⟩
  · exact inv
  · exact kept

/-- With every accepted setting at 133 MHz at most, the refresh count is in time after each
    register write of a run, and each step to another hclk programs the count that
    s3c2412_cpufreq_setrefresh means. -/
theorem refreshed_throughout {regs : Registers} {visited : List (Cpu × Nat)} {t : Cpu}
    (period : board.refresh ≤ 30000) (inTime : InTime board fclk regs)
    (run : Run (step board max) (boot fclk regs) visited t)
    (rated : Every (Rated board max) visited) :
    Throughout (Refreshed board fclk) visited t ∧
    ∀ s targetFreq u, (s, targetFreq) ∈ visited → step board max s targetFreq = some u →
      selected fclk u.regs ≠ selected fclk s.regs →
      u.regs.refresh.toNat = refreshCount board (selected fclk u.regs) := by
  have kept : Throughout (Inv board fclk) visited t :=
    run.invariant_of_allowed (boot_inv inTime) (step_inv period) rated
  refine ⟨⟨fun p member => (kept.1 p member).refreshed,kept.2.refreshed⟩,?_⟩
  intro s targetFreq u member next other
  have inv : Inv board fclk s := kept.1 _ member
  rcases step_changed period inv (rated _ member) next with rfl | ⟨new,_,changed⟩
  · exact absurd rfl other
  · rw [changed.hclk] at other ⊢
    exact changed.count (by rw [inv.rate]; exact other)

end

def jiveCpufreq : Board := { refresh := 7800, banks := fun _ => false }

theorem jive_down_and_up : ∃ visited t,
    Run (step jiveCpufreq infoMax) (boot 200000000 ⟨0x5,780⟩) visited t ∧
    t.written.map (fun regs => regs.refresh.toNat) = [780, 390, 390, 390, 390, 390] ∧
    Throughout (Refreshed jiveCpufreq 200000000) visited t := by
  have run : Run (step jiveCpufreq infoMax) (boot 200000000 ⟨0x5,780⟩) _ _ :=
    run_follow [50000, 200000] rfl
  refine ⟨_,_,run,?_,?_⟩
  · rfl
  · refine (refreshed_throughout ?_ ?_ run ?_).1
    · decide
    · unfold InTime
      decide
    · unfold Every
      decide

end S3c2412
