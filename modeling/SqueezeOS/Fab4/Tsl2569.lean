import SqueezeOS.BitFields
import SqueezeOS.Kernel.Guarded
import SqueezeOS.Kernel.Strings
import SqueezeOS.StepRuns

/- The TSL2569 ambient light sensor of the Fab4: its attributes, the mutex update_lock around
   them and the registers of the chip that they write. -/
namespace Tsl2569
open Guarded KernelStrings StepRuns

/-- struct tsl2569_data, and the registers CONTROL and TIMING of the chip. -/
structure Sensor where
  powerState : BitVec 1
  gain : BitVec 1
  integration : BitVec 2
  manualCycleState : BitVec 1
  factor : BitVec 32
  control : BitVec 8
  timing : BitVec 8
  deriving DecidableEq, Repr

/-- As tsl2569_init_client leaves it, with TIMING at its reset value. -/
def initClient : Driver Sensor :=
  { locked := false
    data := { powerState := 1, gain := 0, integration := 2, manualCycleState := 0, factor := 1
              control := 0x03, timing := 0x02 } }

/-- A failed write leaves the chip as it was, but the state is noted all the same. -/
def setPowerState (state : Nat) (ret : Int) (d : Sensor) : Sensor :=
  let control : BitVec 8 := if state = 0 then 0x03 else 0x00
  { d with control := if ret < 0 then d.control else control, powerState := BitVec.ofNat 1 state }

structure Channel where
  ret : Int
  low : BitVec 8
  high : BitVec 8
  deriving DecidableEq, Repr

def getAdcValue (channel : Channel) : Int :=
  if channel.ret < 0 then channel.ret else (channel.high ++ channel.low).toNat

/-- The manual cycle is left out here. -/
def setTiming (d : Sensor) : Sensor :=
  { d with timing := d.gain.setWidth 8 <<< 4 ||| d.integration.setWidth 8 }

def integCycle (cmd : BitVec 1) (d : Sensor) : Sensor :=
  { d with timing := d.gain.setWidth 8 <<< 4 ||| cmd.setWidth 8 <<< 3 ||| d.integration.setWidth 8 }

def packageT : List (BitVec 32 × BitVec 32 × BitVec 32) :=
  [(0x00b3, 0x01f4, 0x02a4), (0x0100, 0x0217, 0x030a), (0x0133, 0x01da, 0x028f),
    (0x0171, 0x0177, 0x01ec), (0x01b3, 0x008d, 0x00a6)]

def packageCS : List (BitVec 32 × BitVec 32 × BitVec 32) :=
  [(0x00b3, 0x01d3, 0x027f), (0x00e6, 0x0214, 0x0333), (0x010a, 0x0265, 0x03e5),
    (0x0157, 0x0102, 0x013c), (0x01b3, 0x00dd, 0x0104)]

def coefficients (ratio : BitVec 32) : List (BitVec 32 × BitVec 32 × BitVec 32) →
    BitVec 32 × BitVec 32
  | [] => (0, 0)
  | (k, b, m) :: rest => if ratio ≤ k then (b, m) else coefficients ratio rest

def calculateLux (iFactor iGain tInt ch0 ch1 : BitVec 32) (iType : Int) : BitVec 32 :=
  let chScale : BitVec 32 := if tInt = 0 then 0x7517 else if tInt = 1 then 0x0fe7 else 1 <<< 10
  let chScale := if iGain = 0 then chScale <<< 4 else chScale
  let channel0 := (ch0 * chScale) >>> 10
  let channel1 := (ch1 * chScale) >>> 10
  let ratio1 := if channel0 ≠ 0 then channel1 <<< 10 / channel0 else 0
  let ratio := (ratio1 + 1) >>> 1
  let (b, m) := coefficients ratio
    (if iType = 0 then packageT else if iType = 1 then packageCS else [])
  let temp := channel0 * b * iFactor - channel1 * m * iFactor
  (temp + 1 <<< 15) >>> 16

def getLuxValue (channel0 channel1 : Channel) (d : Sensor) : Int :=
  let ch0 := getAdcValue channel0
  if ch0 < 0 then ch0
  else
    let ch1 := getAdcValue channel1
    if ch1 < 0 then ch1
    else if ch0 = 0 then 0
    else (calculateLux d.factor (d.gain.setWidth 32) (d.integration.setWidth 32)
      (BitVec.ofInt 32 ch0) (BitVec.ofInt 32 ch1) 0).toInt

def line (value : Int) : String := toString value ++ "\n"

def showFactor : Operation Sensor := fun s => some (.shown (line s.data.factor.toInt), s)

def storeFactor (buf : List UInt8) : Operation Sensor := fun s =>
  let val := simpleStrtoul buf 10
  if val > 65536 then some (.error einval, s)
  else some (.stored buf.length, { s with data := { s.data with factor := BitVec.ofNat 32 val } })

def showPowerState : Operation Sensor := fun s => some (.shown (line s.data.powerState.toNat), s)

/-- Here the mutex is free again before the result is looked at. -/
def storePowerState (buf : List UInt8) (ret : Int) : Operation Sensor := fun s =>
  let val := simpleStrtoul buf 10
  if val > 1 then some (.error einval, s)
  else mutexLock (fun s =>
    let s := mutexUnlock { s with data := setPowerState val ret s.data }
    if ret < 0 then some (.error ret, s) else some (.stored buf.length, s)) s

def showAdc (channel0 channel1 : Channel) : Operation Sensor := fun s =>
  if s.data.powerState = 0 then some (.error ebusy, s)
  else mutexLock (fun s =>
    let ch0 := getAdcValue channel0
    if ch0 < 0 then some (.error ch0, s)
    else
      let ch1 := getAdcValue channel1
      if ch1 < 0 then some (.error ch1, s)
      else some (.shown (toString ch0 ++ "," ++ line ch1), mutexUnlock s)) s

def showLux (channel0 channel1 : Channel) : Operation Sensor := fun s =>
  if s.data.powerState = 0 then some (.error ebusy, s)
  else mutexLock (fun s =>
    let lux := getLuxValue channel0 channel1 s.data
    if lux < 0 then some (.error lux, s) else some (.shown (line lux), mutexUnlock s)) s

def showGain : Operation Sensor := showField fun d => line d.gain.toNat

def storeGain (buf : List UInt8) (ret : Int) : Operation Sensor :=
  storeField 1 (fun val d => { d with gain := BitVec.ofNat 1 val }) setTiming
    (simpleStrtoul buf 10) buf.length ret

def showIntegration : Operation Sensor := showField fun d => line d.integration.toNat

def storeIntegration (buf : List UInt8) (ret : Int) : Operation Sensor :=
  storeField 3 (fun val d => { d with integration := BitVec.ofNat 2 val }) setTiming
    (simpleStrtoul buf 10) buf.length ret

def showIntegCycle : Operation Sensor := showField fun d => line d.manualCycleState.toNat

def storeIntegCycle (buf : List UInt8) (ret : Int) : Operation Sensor := fun s =>
  let val := simpleStrtoul buf 10
  if val > 1 then some (.error einval, s)
  else mutexLock (fun s =>
    if s.data.integration ≠ 3 then some (.error einval, s)
    else if val ≠ s.data.manualCycleState.toNat then
      let s := { s with data := { s.data with manualCycleState := BitVec.ofNat 1 val } }
      if ret < 0 then some (.error ret, s)
      else some (.stored buf.length,
        mutexUnlock { s with data := integCycle (BitVec.ofNat 1 val) s.data })
    else some (.stored buf.length, mutexUnlock s)) s

inductive Access where
  | showFactor
  | storeFactor (buf : List UInt8)
  | showPowerState
  | storePowerState (buf : List UInt8) (ret : Int)
  | showAdc (channel0 channel1 : Channel)
  | showLux (channel0 channel1 : Channel)
  | showGain
  | storeGain (buf : List UInt8) (ret : Int)
  | showIntegration
  | storeIntegration (buf : List UInt8) (ret : Int)
  | showIntegCycle
  | storeIntegCycle (buf : List UInt8) (ret : Int)
  deriving DecidableEq, Repr

def access : Access → Operation Sensor
  | .showFactor => showFactor
  | .storeFactor buf => storeFactor buf
  | .showPowerState => showPowerState
  | .storePowerState buf ret => storePowerState buf ret
  | .showAdc channel0 channel1 => showAdc channel0 channel1
  | .showLux channel0 channel1 => showLux channel0 channel1
  | .showGain => showGain
  | .storeGain buf ret => storeGain buf ret
  | .showIntegration => showIntegration
  | .storeIntegration buf ret => storeIntegration buf ret
  | .showIntegCycle => showIntegCycle
  | .storeIntegCycle buf ret => storeIntegCycle buf ret

def Unlocks (d : Sensor) : Access → Prop
  | .showAdc channel0 channel1 | .showLux channel0 channel1 =>
      d.powerState = 0 ∨ 0 ≤ channel0.ret ∧ 0 ≤ channel1.ret
  | .storeGain buf ret => simpleStrtoul buf 10 > 1 ∨ 0 ≤ ret
  | .storeIntegration buf ret => simpleStrtoul buf 10 > 3 ∨ 0 ≤ ret
  | .storeIntegCycle buf ret => simpleStrtoul buf 10 > 1 ∨ d.integration = 3 ∧
      (simpleStrtoul buf 10 = d.manualCycleState.toNat ∨ 0 ≤ ret)
  | _ => True

theorem calculateLux_nonneg (iFactor iGain tInt ch0 ch1 : BitVec 32) (iType : Int) :
    0 ≤ (calculateLux iFactor iGain tInt ch0 ch1 iType).toInt := by
  simp only [calculateLux]
  rw [BitVec.toInt_eq_toNat_of_lt]
  · exact Int.natCast_nonneg _
  · rw [BitVec.toNat_ushiftRight, Nat.shiftRight_eq_div_pow]
    omega

theorem getAdcValue_nonneg_iff (channel : Channel) : 0 ≤ getAdcValue channel ↔ 0 ≤ channel.ret := by
  unfold getAdcValue
  split
  · rfl
  · rename_i read
    exact ⟨fun _ => by omega,fun _ => Int.natCast_nonneg _⟩

theorem getLuxValue_nonneg_iff (channel0 channel1 : Channel) (d : Sensor) :
    0 ≤ getLuxValue channel0 channel1 d ↔ 0 ≤ channel0.ret ∧ 0 ≤ channel1.ret := by
  rw [← getAdcValue_nonneg_iff channel0, ← getAdcValue_nonneg_iff channel1]
  simp only [getLuxValue]
  split
  · omega
  · split
    · omega
    · split
      · omega
      · have lux := calculateLux_nonneg d.factor (d.gain.setWidth 32) (d.integration.setWidth 32)
          (BitVec.ofInt 32 (getAdcValue channel0)) (BitVec.ofInt 32 (getAdcValue channel1)) 0
        omega

section
variable {s : Driver Sensor} (free : s.locked = false)
include free

theorem storePowerState_frees (buf : List UInt8) (ret : Int) :
    Frees (storePowerState buf ret s) True := by
  apply frees_ite
  · intro refused
    exact frees_free free trivial
  · intro accepted
    apply frees_mutexLock free
    apply frees_ite
    · intro failed
      exact frees_free rfl trivial
    · intro passed
      exact frees_free rfl trivial

theorem showAdc_frees (channel0 channel1 : Channel) :
    Frees (showAdc channel0 channel1 s)
      (s.data.powerState = 0 ∨ 0 ≤ channel0.ret ∧ 0 ≤ channel1.ret) := by
  rw [← getAdcValue_nonneg_iff channel0, ← getAdcValue_nonneg_iff channel1]
  apply frees_ite
  · intro off
    exact frees_free free (.inl off)
  · intro on
    apply frees_mutexLock free
    apply frees_ite
    · intro failed
      refine frees_held rfl ?_
      rintro (off | ⟨first,_⟩)
      · exact on off
      · omega
    · intro first
      apply frees_ite
      · intro failed
        refine frees_held rfl ?_
        rintro (off | ⟨_,second⟩)
        · exact on off
        · omega
      · intro second
        exact frees_free rfl (.inr ⟨by omega,by omega⟩)

theorem showLux_frees (channel0 channel1 : Channel) :
    Frees (showLux channel0 channel1 s)
      (s.data.powerState = 0 ∨ 0 ≤ channel0.ret ∧ 0 ≤ channel1.ret) := by
  rw [← getLuxValue_nonneg_iff channel0 channel1 s.data]
  apply frees_ite
  · intro off
    exact frees_free free (.inl off)
  · intro on
    apply frees_mutexLock free
    apply frees_ite
    · intro failed
      refine frees_held rfl ?_
      rintro (off | lux)
      · exact on off
      · exact absurd lux (Int.not_le.mpr failed)
    · intro read
      exact frees_free rfl (.inr (Int.not_lt.mp read))

theorem storeIntegCycle_frees (buf : List UInt8) (ret : Int) :
    Frees (storeIntegCycle buf ret s) (simpleStrtoul buf 10 > 1 ∨ s.data.integration = 3 ∧
      (simpleStrtoul buf 10 = s.data.manualCycleState.toNat ∨ 0 ≤ ret)) := by
  apply frees_ite
  · intro refused
    exact frees_free free (.inl refused)
  · intro accepted
    apply frees_mutexLock free
    apply frees_ite
    · intro automatic
      refine frees_held rfl ?_
      rintro (refused | ⟨manual,_⟩)
      · exact accepted refused
      · exact automatic manual
    · intro manual
      rw [not_not] at manual
      apply frees_ite
      · intro changes
        apply frees_ite
        · intro failed
          refine frees_held rfl ?_
          rintro (refused | ⟨_,same | passed⟩)
          · exact accepted refused
          · exact changes same
          · omega
        · intro passed
          exact frees_free rfl (.inr ⟨manual,.inr (by omega)⟩)
      · intro same
        rw [not_not] at same
        exact frees_free rfl (.inr ⟨manual,.inl same⟩)

theorem access_frees (a : Access) : Frees (access a s) (Unlocks s.data a) := by
  cases a with
  | showFactor => exact frees_free free trivial
  | storeFactor buf =>
    apply frees_ite
    · intro refused
      exact frees_free free trivial
    · intro accepted
      exact frees_free free trivial
  | showPowerState => exact frees_free free trivial
  | storePowerState buf ret => exact storePowerState_frees free buf ret
  | showAdc channel0 channel1 => exact showAdc_frees free channel0 channel1
  | showLux channel0 channel1 => exact showLux_frees free channel0 channel1
  | showGain =>
    unfold access showGain Unlocks
    exact showField_frees _ free
  | storeGain buf ret =>
    unfold access storeGain Unlocks
    exact storeField_frees _ _ _ _ _ ret free
  | showIntegration =>
    unfold access showIntegration Unlocks
    exact showField_frees _ free
  | storeIntegration buf ret =>
    unfold access storeIntegration Unlocks
    exact storeField_frees _ _ _ _ _ ret free
  | showIntegCycle =>
    unfold access showIntegCycle Unlocks
    exact showField_frees _ free
  | storeIntegCycle buf ret => exact storeIntegCycle_frees free buf ret

end

def reportedTiming (d : Sensor) : BitVec 8 :=
  d.gain.setWidth 8 <<< 4 |||
    (if d.integration = 3 then d.manualCycleState.setWidth 8 <<< 3 else 0) |||
    d.integration.setWidth 8

def Mirrors (s : Driver Sensor) : Prop := s.data.timing = reportedTiming s.data

def LuxMirrors (s : Driver Sensor) : Prop :=
  s.data.timing &&& 0x13 = s.data.gain.setWidth 8 <<< 4 ||| s.data.integration.setWidth 8

inductive TimingAttribute where
  | gain | integration | manualCycleState
  deriving DecidableEq, Repr

def store (which : TimingAttribute) (buf : List UInt8) : Access :=
  match which with
  | .gain => .storeGain buf 0
  | .integration => .storeIntegration buf 0
  | .manualCycleState => .storeIntegCycle buf 0

def step (s : Driver Sensor) (write : TimingAttribute × List UInt8) : Option (Driver Sensor) :=
  (access (store write.1 write.2) s).map Prod.snd

def KeepsCycle (s : Driver Sensor) : TimingAttribute × List UInt8 → Prop
  | (.gain, buf) => simpleStrtoul buf 10 ≤ 1 →
      ¬ (s.data.integration = 3 ∧ s.data.manualCycleState = 1)
  | (.integration, buf) => simpleStrtoul buf 10 = 3 → s.data.manualCycleState = 0
  | (.manualCycleState, _) => True

instance (s : Driver Sensor) : (write : TimingAttribute × List UInt8) →
    Decidable (KeepsCycle s write)
  | (.gain, _) => by unfold KeepsCycle; infer_instance
  | (.integration, _) => by unfold KeepsCycle; infer_instance
  | (.manualCycleState, _) => .isTrue trivial

theorem step_cases {s t : Driver Sensor} {which : TimingAttribute} {buf : List UInt8}
    (next : step s (which, buf) = some t) :
    (t.data = s.data ∧ (which = .gain → 1 < simpleStrtoul buf 10) ∧
      (which = .integration → 3 < simpleStrtoul buf 10)) ∨
    (which = .gain ∧ simpleStrtoul buf 10 ≤ 1 ∧
      t.data = setTiming { s.data with gain := BitVec.ofNat 1 (simpleStrtoul buf 10) }) ∨
    (which = .integration ∧ simpleStrtoul buf 10 ≤ 3 ∧
      t.data = setTiming { s.data with integration := BitVec.ofNat 2 (simpleStrtoul buf 10) }) ∨
    (which = .manualCycleState ∧ s.data.integration = 3 ∧
      t.data = integCycle (BitVec.ofNat 1 (simpleStrtoul buf 10))
        { s.data with manualCycleState := BitVec.ofNat 1 (simpleStrtoul buf 10) }) := by
  obtain ⟨⟨result,_⟩,ran,rfl⟩ := Option.map_eq_some_iff.mp next
  cases which with
  | gain =>
    simp only [store, access, storeGain] at ran
    rcases storeField_cases (by decide) ran with ⟨refused,rfl⟩ | ⟨accepted,stored⟩
    · exact .inl ⟨rfl,fun _ => refused,by simp⟩
    · exact .inr (.inl ⟨rfl,accepted,stored⟩)
  | integration =>
    simp only [store, access, storeIntegration] at ran
    rcases storeField_cases (by decide) ran with ⟨refused,rfl⟩ | ⟨accepted,stored⟩
    · exact .inl ⟨rfl,by simp,fun _ => refused⟩
    · exact .inr (.inr (.inl ⟨rfl,accepted,stored⟩))
  | manualCycleState =>
    simp only [store, access, storeIntegCycle, mutexLock] at ran
    split at ran
    · cases Option.some.inj ran
      exact .inl ⟨rfl,by simp,by simp⟩
    · split at ran
      · contradiction
      · split at ran
        · cases Option.some.inj ran
          exact .inl ⟨rfl,by simp,by simp⟩
        · rename_i manual
          rw [not_not] at manual
          split at ran
          · rw [if_neg (by decide)] at ran
            cases Option.some.inj ran
            exact .inr (.inr (.inr ⟨rfl,manual,rfl⟩))
          · cases Option.some.inj ran
            exact .inl ⟨rfl,by simp,by simp⟩

theorem timing_bits : ∀ (gain : BitVec 1) (integration : BitVec 2) (manualCycleState : BitVec 1),
    gain.setWidth 8 <<< 4 ||| integration.setWidth 8 = gain.setWidth 8 <<< 4 |||
      (if integration = 3 then manualCycleState.setWidth 8 <<< 3 else 0) |||
      integration.setWidth 8 ↔ ¬ (integration = 3 ∧ manualCycleState = 1) := by
  decide

theorem lux_bits : ∀ (gain : BitVec 1) (integration : BitVec 2) (cycle : BitVec 1),
    (gain.setWidth 8 <<< 4 ||| cycle.setWidth 8 <<< 3 ||| integration.setWidth 8) &&& 0x13 =
      gain.setWidth 8 <<< 4 ||| integration.setWidth 8 := by
  decide

theorem setTiming_eq_integCycle (d : Sensor) : setTiming d = integCycle 0 d := by
  simp [setTiming, integCycle]

theorem integCycle_lux (s : Driver Sensor) (cmd : BitVec 1) (d : Sensor)
    (stored : s.data = integCycle cmd d) : LuxMirrors s := by
  unfold LuxMirrors
  rw [stored]
  exact lux_bits d.gain d.integration cmd

theorem initClient_mirrors : Mirrors initClient := rfl

theorem ofNat_three {val : Nat} (small : val ≤ 3) : BitVec.ofNat 2 val = 3 ↔ val = 3 := by
  have cases4 : val = 0 ∨ val = 1 ∨ val = 2 ∨ val = 3 := by omega
  rcases cases4 with rfl | rfl | rfl | rfl <;> decide

theorem not_one_iff : ∀ bit : BitVec 1, ¬ bit = 1 ↔ bit = 0 := by
  decide

theorem setTiming_mirrors_iff (d : Sensor) :
    (setTiming d).timing = reportedTiming (setTiming d) ↔
      ¬ (d.integration = 3 ∧ d.manualCycleState = 1) :=
  timing_bits d.gain d.integration d.manualCycleState

theorem step_mirrors_iff {s t : Driver Sensor} {write : TimingAttribute × List UInt8}
    (mirrors : Mirrors s) (next : step s write = some t) : Mirrors t ↔ KeepsCycle s write := by
  obtain ⟨which,buf⟩ := write
  unfold Mirrors
  rcases step_cases next with ⟨same,gain,integration⟩ | ⟨rfl,accepted,stored⟩ |
    ⟨rfl,accepted,stored⟩ | ⟨rfl,manual,stored⟩
  · rw [same]
    refine ⟨fun _ => ?_,fun _ => mirrors⟩
    cases which with
    | gain =>
      intro accepted
      have := gain rfl
      omega
    | integration =>
      intro accepted
      have := integration rfl
      omega
    | manualCycleState => trivial
  · rw [stored, setTiming_mirrors_iff]
    exact ⟨fun keeps _ => keeps,fun keeps => keeps accepted⟩
  · rw [stored, setTiming_mirrors_iff, ofNat_three accepted, not_and, not_one_iff]
    rfl
  · rw [stored]
    simp [KeepsCycle, integCycle, reportedTiming, manual]

theorem step_lux {s t : Driver Sensor} {write : TimingAttribute × List UInt8}
    (mirrors : LuxMirrors s) (next : step s write = some t) : LuxMirrors t := by
  obtain ⟨which,buf⟩ := write
  rcases step_cases next with ⟨same,_⟩ | ⟨_,_,stored⟩ | ⟨_,_,stored⟩ | ⟨_,_,stored⟩
  · unfold LuxMirrors
    rw [same]
    exact mirrors
  · rw [setTiming_eq_integCycle] at stored
    exact integCycle_lux t _ _ stored
  · rw [setTiming_eq_integCycle] at stored
    exact integCycle_lux t _ _ stored
  · exact integCycle_lux t _ _ stored

/-- In every sequence of writes CalculateLux has the gain and the integration time of the
    chip; TIMING mirrors all of the state throughout exactly when no gain is stored during a
    manual cycle and no cycle counts as started when the integration is set to manual. -/
theorem mirrors_throughout_iff {visited : List (Driver Sensor × TimingAttribute × List UInt8)}
    {t : Driver Sensor} (run : Run step initClient visited t) :
    Throughout LuxMirrors visited t ∧
    (Throughout Mirrors visited t ↔ Every KeepsCycle visited) := by
  constructor
  · have start : LuxMirrors initClient := rfl
    exact run.invariant start fun s write t lux next => step_lux lux next
  · exact run.throughout_iff initClient_mirrors (fun _ mirrors => mirrors)
      (fun s write t mirrors keeps next => (step_mirrors_iff mirrors next).mpr keeps)
      (fun s write t mirrors next good => (step_mirrors_iff mirrors next).mp good)

/-- "3" to the integration, "1" to the cycle and "1" to the gain: the cycle is stopped in the
    chip and is still reported as started. -/
theorem cycle_stopped_by_gain : ∃ visited t, Run step initClient visited t ∧
    t.data.timing = 0x13 ∧ t.data.manualCycleState = 1 ∧ reportedTiming t.data = 0x1b ∧
    ¬ Throughout Mirrors visited t := by
  refine ⟨_,_,run_follow [(.integration, [51]), (.manualCycleState, [49]), (.gain, [49])] rfl,
    rfl,rfl,rfl,?_⟩
  intro mirrors
  exact absurd mirrors.2 (by unfold Mirrors; decide)

theorem cycle_after_gain : ∃ visited t, Run step initClient visited t ∧
    t.data.timing = 0x1b ∧ Throughout Mirrors visited t := by
  have run : Run step initClient _ _ :=
    run_follow [(.integration, [51]), (.gain, [49]), (.manualCycleState, [49])] rfl
  refine ⟨_,_,run,rfl,?_⟩
  apply (mirrors_throughout_iff run).2.mpr
  unfold Every
  decide

end Tsl2569
