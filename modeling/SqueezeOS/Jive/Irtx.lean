import Mathlib.Data.BitVec
import SqueezeOS.Stretches

/- The infrared transmitter of the Jive: a write plays pulse words on GPB1, with the carrier that
   timer 1 makes or without it. -/
namespace JiveIrtx
open Stretches

inductive PinMode where
  | inp | outp | tout1 | reserved
  deriving DecidableEq, Repr

structure Hw where
  tcon : BitVec 32
  tcfg0 : BitVec 32
  tcfg1 : BitVec 32
  tcntb1 : BitVec 32
  tcmpb1 : BitVec 32
  gpb1 : PinMode
  dat : Bool
  deriving DecidableEq, Repr

/-- `past` has every state since the call, with the delay in us that was asked for in it. -/
structure Trace where
  hw : Hw
  past : List (Hw × Nat)

def Trace.write (f : Hw → Hw) (t : Trace) : Trace :=
  { hw := f t.hw, past := t.past ++ [(f t.hw, 0)] }

def Trace.delay (us : Nat) (t : Trace) : Trace := { t with past := t.past ++ [(t.hw, us)] }

def mdelay (ms : Nat) : Trace → Trace := Trace.delay (1000 * ms)

def udelay (us : Nat) : Trace → Trace := Trace.delay us

def tconT1Start : BitVec 32 := 1 <<< 8
def tconT1Manualupd : BitVec 32 := 1 <<< 9
def tconT1Reload : BitVec 32 := 1 <<< 11

def setTcon (f : BitVec 32 → BitVec 32) (hw : Hw) : Hw := { hw with tcon := f hw.tcon }
def cfgpin (mode : PinMode) (hw : Hw) : Hw := { hw with gpb1 := mode }
def setpin (level : Bool) (hw : Hw) : Hw := { hw with dat := level }

def stopTimer : Hw → Hw := setTcon (· &&& 0xFFFFF0FF)

def disableCarrierNothing (t : Trace) : Trace :=
  t |>.write stopTimer |>.write (cfgpin .outp) |>.write (setpin false)

def enableCarrierProcess (v1 v2 : Nat) (t : Trace) : Trace :=
  t |>.write (cfgpin .tout1)
    |>.write (fun hw => { hw with tcfg0 := hw.tcfg0 &&& ~~~0xFF })
    |>.write (fun hw => { hw with tcfg1 := hw.tcfg1 &&& ~~~(15 <<< 4 : BitVec 32) })
    |>.write (fun hw => { hw with tcfg1 := hw.tcfg1 ||| 1 <<< 4 })
    |>.write (fun hw => { hw with tcntb1 := BitVec.ofNat 32 v1 })
    |>.write (fun hw => { hw with tcmpb1 := BitVec.ofNat 32 v2 })
    |>.write stopTimer
    |>.write (setTcon (· ||| tconT1Manualupd))
    |>.write (setTcon (· ||| (tconT1Reload ||| tconT1Start)))
    |>.write (setTcon (· &&& ~~~tconT1Manualupd))

def enableNoCarrier (t : Trace) : Trace :=
  t |>.write stopTimer |>.write (cfgpin .outp) |>.write (setpin true)

def bufferMax : Nat := 100
def noCarrierDelayMax : Nat := 20
def markBit : BitVec 32 := 0x80000000
def omitCarrierBit : BitVec 32 := 0x40000000
def clockFrequency : Nat := 12000000
def carrierFrequencyMin : Nat := 20000
def carrierFrequencyMax : Nat := 500000

def delayTime (word : BitVec 32) : Nat := (word &&& ~~~(markBit ||| omitCarrierBit)).toNat

def wait (us : Nat) (t : Trace) : Trace := udelay (us % 1000) (mdelay (us / 1000) t)

def playWord (v1 v2 : Nat) (t : Trace) (word : BitVec 32) : Trace :=
  let (delay, t) :=
    if word &&& markBit ≠ 0 then
      if word &&& omitCarrierBit ≠ 0 then
        (if delayTime word > noCarrierDelayMax then noCarrierDelayMax else delayTime word,
          enableNoCarrier t)
      else (delayTime word, enableCarrierProcess v1 v2 t)
    else (delayTime word, disableCarrierNothing t)
  wait delay t

def carrierFrequency (first : BitVec 32) : Nat :=
  let frequency := first.toNat
  let frequency := if frequency < carrierFrequencyMin then carrierFrequencyMin else frequency
  if frequency > carrierFrequencyMax then carrierFrequencyMax else frequency

/-- The words that the loop plays, from i = 1 up to the count. -/
def played (txData : Vector (BitVec 32) 100) (count : Nat) : List (BitVec 32) :=
  (txData.toList.take (if count > bufferMax then bufferMax else count)).tail

/-- `txData` is what is in TxData behind copy_from_user, which never returns less than 0. -/
def irTransmissionWrite (txData : Vector (BitVec 32) 100) (count : Nat) (hw : Hw) : Trace :=
  let v1 := clockFrequency / carrierFrequency txData[0]
  let v2 := v1 / 2
  let t := disableCarrierNothing { hw := hw, past := [] }
  let t := (played txData count).foldl (playWord v1 v2) t
  disableCarrierNothing t

def Hw.started (hw : Hw) : Bool := hw.tcon.getLsbD 8
def Hw.updated (hw : Hw) : Bool := hw.tcon.getLsbD 9

/-- The LED is driven, and no carrier runs; a pin that has been given to a stopped timer counts
    as driven. -/
def onWithoutCarrier (hw : Hw) : Bool :=
  match hw.gpb1 with
  | .outp => hw.dat
  | .tout1 => !hw.started
  | .inp | .reserved => false

def entries (t : Trace) : List Entry := t.past.map fun p => (onWithoutCarrier p.1, p.2)

/-- The LED is on without carrier for the limit at most. With `moments`, a state that no delay
    was asked for in interrupts too. -/
def LedSpared (moments : Bool) (t : Trace) : Prop :=
  Bounded noCarrierDelayMax (lasting moments (entries t))

def Loaded (hw : Hw) : Prop :=
  (hw.started = true ∨ hw.updated = true) →
    (24 ≤ hw.tcntb1.toNat ∧ hw.tcntb1.toNat ≤ 600) ∧ hw.tcmpb1.toNat = hw.tcntb1.toNat / 2

structure Protected (moments : Bool) (txData : Vector (BitVec 32) 100) (count : Nat) (hw : Hw) :
    Prop where
  spared : LedSpared moments (irTransmissionWrite txData count hw)
  words : (played txData count).length ≤ min count 100 - 1
  loaded : ∀ p ∈ (irTransmissionWrite txData count hw).past, Loaded p.1
  stopped : (irTransmissionWrite txData count hw).hw.started = false
  low : (irTransmissionWrite txData count hw).hw.gpb1 = .outp ∧
    (irTransmissionWrite txData count hw).hw.dat = false

def wordEntry (word : BitVec 32) : Entry :=
  if word &&& markBit ≠ 0 ∧ word &&& omitCarrierBit ≠ 0 then
    (true, min (delayTime word) noCarrierDelayMax)
  else (false, delayTime word)

section
variable (moments : Bool) {t : Trace} {f : Hw → Hw}

/-- How long the LED has been on without carrier, unless that was too long once. -/
def soFar (t : Trace) : Option Nat := follow noCarrierDelayMax 0 (lasting moments (entries t))

theorem ledSpared_iff : LedSpared moments t ↔ (soFar moments t).isSome = true := bounded_iff _

theorem soFar_le {n : Nat} (here : soFar moments t = some n) : n ≤ noCarrierDelayMax :=
  follow_le (Nat.zero_le _) here

theorem soFar_delay (us : Nat) : soFar moments (t.delay us) =
    (soFar moments t).bind fun n =>
      follow noCarrierDelayMax n (lasting moments [(onWithoutCarrier t.hw, us)]) := by
  simp only [soFar, entries, Trace.delay, List.map_append, lasting_append, follow_append]
  rfl

theorem soFar_write : soFar moments (t.write f) =
    (soFar moments t).map fun n =>
      if moments = true ∧ onWithoutCarrier (f t.hw) = false then 0 else n := by
  have delayed : soFar moments (t.write f) = (soFar moments t).bind fun n =>
      follow noCarrierDelayMax n (lasting moments [(onWithoutCarrier (f t.hw), 0)]) := by
    simp only [soFar, entries, Trace.write, List.map_append, lasting_append, follow_append]
    rfl
  rw [delayed]
  cases here : soFar moments t with
  | none => rfl
  | some n => exact follow_moment (soFar_le moments here) moments _

theorem soFar_wait (us : Nat) :
    soFar moments (wait us t) =
      (soFar moments t).bind fun n =>
        follow noCarrierDelayMax n (lasting moments [(onWithoutCarrier t.hw, us)]) := by
  have whole : 1000 * (us / 1000) + us % 1000 = us := Nat.div_add_mod us 1000
  rw [wait, udelay, mdelay, soFar_delay, soFar_delay, Option.bind_assoc]
  refine congrArg (Option.bind _) (funext fun n => ?_)
  rw [← whole, ← follow_merge, whole, ← follow_append, ← lasting_append]
  rfl

def OnlyWrites (t u : Trace) : Prop :=
  ∃ g : Nat → Nat, soFar moments u = (soFar moments t).map g ∧ (moments = false → ∀ n, g n = n)

theorem onlyWrites_start : OnlyWrites moments t t := ⟨id,(Option.map_id_apply).symm,fun _ _ => rfl⟩

variable {moments} {u : Trace}

theorem OnlyWrites.write (writes : OnlyWrites moments t u) : OnlyWrites moments t (u.write f) := by
  obtain ⟨g,same,keeps⟩ := writes
  refine ⟨fun n => if moments = true ∧ onWithoutCarrier (f u.hw) = false then 0 else g n,?_,?_⟩
  · rw [soFar_write, same, Option.map_map]
    rfl
  · intro none n
    simp [none, keeps none n]

theorem OnlyWrites.off (writes : OnlyWrites moments t u)
    (off : onWithoutCarrier (f u.hw) = false) : soFar moments (u.write f) =
      (soFar moments t).map fun n => if moments = true then 0 else n := by
  obtain ⟨g,same,keeps⟩ := writes
  rw [soFar_write, same, Option.map_map]
  refine congrArg (fun h => Option.map h _) (funext fun n => ?_)
  cases moments with
  | true => simp [off]
  | false => simp [keeps rfl n]

theorem soFar_disable : soFar moments (disableCarrierNothing t) =
    (soFar moments t).map fun n => if moments = true then 0 else n :=
  OnlyWrites.off (onlyWrites_start moments).write.write rfl

theorem soFar_enable (v1 v2 : Nat) : soFar moments (enableCarrierProcess v1 v2 t) =
    (soFar moments t).map fun n => if moments = true then 0 else n := by
  refine OnlyWrites.off (onlyWrites_start moments).write.write.write.write.write.write.write.write.write ?_
  simp [onWithoutCarrier, Trace.write, stopTimer, setTcon, cfgpin, Hw.started, tconT1Start,
    tconT1Manualupd]

def Between (moments : Bool) (t : Trace) : Prop :=
  ∀ n, soFar moments t = some n → moments = true →
    n = 0 ∨ t.hw.gpb1 = .outp ∧ t.hw.dat = true

theorem soFar_noCarrier (between : Between moments t) :
    soFar moments (enableNoCarrier t) = soFar moments t := by
  unfold enableNoCarrier
  rw [soFar_write, soFar_write, soFar_write, Option.map_map, Option.map_map]
  cases here : soFar moments t with
  | none => rfl
  | some n =>
    cases count : moments with
    | false => simp
    | true =>
      rcases between n here count with rfl | ⟨mode,level⟩
      · simp
      · simp [onWithoutCarrier, Trace.write, stopTimer, setTcon, cfgpin, setpin, mode, level]

theorem carrier_runs (v1 v2 : Nat) :
    onWithoutCarrier (enableCarrierProcess v1 v2 t).hw = false := by
  simp [enableCarrierProcess, onWithoutCarrier, Trace.write, stopTimer, setTcon, cfgpin,
    Hw.started, tconT1Start, tconT1Manualupd]

theorem soFar_off {us : Nat} (off : onWithoutCarrier u.hw = false)
    (ended : soFar moments u = (soFar moments t).map fun n => if moments = true then 0 else n) :
    soFar moments (wait us u) = (soFar moments t).bind fun n =>
      follow noCarrierDelayMax n (lasting moments [(false, us)]) := by
  rw [soFar_wait, ended, off, Option.bind_map]
  refine congrArg (Option.bind _) (funext fun n => ?_)
  cases moments <;> simp [lasting, follow]

theorem playWord_cases (t : Trace) (v1 v2 : Nat) (word : BitVec 32) :
    (∃ us, wordEntry word = (true, us) ∧
      playWord v1 v2 t word = wait us (enableNoCarrier t)) ∨
      ∃ us u, wordEntry word = (false, us) ∧ playWord v1 v2 t word = wait us u ∧
        (u = enableCarrierProcess v1 v2 t ∨ u = disableCarrierNothing t) := by
  unfold playWord wordEntry
  by_cases mark : word &&& markBit ≠ 0
  · by_cases omits : word &&& omitCarrierBit ≠ 0
    · left
      refine ⟨_,if_pos ⟨mark,omits⟩,?_⟩
      have limited : (if delayTime word > noCarrierDelayMax then noCarrierDelayMax
          else delayTime word) = min (delayTime word) noCarrierDelayMax := by
        split <;> omega
      rw [if_pos mark, if_pos omits, limited]
    · right
      refine ⟨_,_,if_neg (fun both => omits both.2),?_,.inl rfl⟩
      rw [if_pos mark, if_neg omits]
  · right
    refine ⟨_,_,if_neg (fun both => mark both.1),?_,.inr rfl⟩
    rw [if_neg mark]

theorem soFar_playWord (between : Between moments t) (v1 v2 : Nat) (word : BitVec 32) :
    soFar moments (playWord v1 v2 t word) = (soFar moments t).bind fun n =>
      follow noCarrierDelayMax n (lasting moments [wordEntry word]) := by
  rcases playWord_cases t v1 v2 word with ⟨us,entry,same⟩ | ⟨us,u,entry,same,rfl | rfl⟩
  · have on : onWithoutCarrier (enableNoCarrier t).hw = true := rfl
    rw [same, entry, soFar_wait, soFar_noCarrier between, on]
  · rw [same, entry]
    exact soFar_off (carrier_runs v1 v2) (soFar_enable v1 v2)
  · rw [same, entry]
    exact soFar_off rfl soFar_disable

theorem playWord_between (between : Between moments t) (v1 v2 : Nat) (word : BitVec 32) :
    Between moments (playWord v1 v2 t word) := by
  intro n here count
  rcases playWord_cases t v1 v2 word with ⟨us,entry,same⟩ | ⟨us,u,entry,_,_⟩
  · rw [same]
    exact .inr ⟨rfl,rfl⟩
  · left
    rw [soFar_playWord between, entry, count] at here
    obtain ⟨_,_,ended⟩ := Option.bind_eq_some_iff.mp here
    exact (Option.some.inj ended).symm

theorem soFar_play (between : Between moments t) (v1 v2 : Nat) (words : List (BitVec 32)) :
    soFar moments (words.foldl (playWord v1 v2) t) = (soFar moments t).bind fun n =>
      follow noCarrierDelayMax n (lasting moments (words.map wordEntry)) := by
  induction words generalizing t with
  | nil =>
    cases here : soFar moments t <;> simp [follow, lasting, here]
  | cons word words ih =>
    rw [List.foldl_cons, ih (playWord_between between v1 v2 word), soFar_playWord between,
      Option.bind_assoc]
    refine congrArg (Option.bind _) (funext fun n => ?_)
    rw [← follow_append, ← lasting_append]
    rfl

end

theorem ledSpared_write (moments : Bool) (txData : Vector (BitVec 32) 100) (count : Nat)
    (hw : Hw) : LedSpared moments (irTransmissionWrite txData count hw) ↔
      Bounded noCarrierDelayMax (lasting moments ((played txData count).map wordEntry)) := by
  have start : soFar moments (disableCarrierNothing { hw := hw, past := [] }) = some 0 := by
    rw [soFar_disable]
    exact congrArg some (ite_self 0)
  have between : Between moments (disableCarrierNothing { hw := hw, past := [] }) := by
    intro n here _
    rw [start] at here
    exact .inl (Option.some.inj here).symm
  rw [ledSpared_iff, irTransmissionWrite, soFar_disable, Option.isSome_map,
    soFar_play between, start, bounded_iff]
  rfl

section
variable {v1 v2 : Nat} {t : Trace} {f : Hw → Hw}

def LoadedWith (v1 v2 : Nat) (hw : Hw) : Prop :=
  (hw.started = true ∨ hw.updated = true) →
    hw.tcntb1 = BitVec.ofNat 32 v1 ∧ hw.tcmpb1 = BitVec.ofNat 32 v2

def AllLoaded (v1 v2 : Nat) (t : Trace) : Prop :=
  LoadedWith v1 v2 t.hw ∧ ∀ p ∈ t.past, LoadedWith v1 v2 p.1

theorem write_allLoaded (past : ∀ p ∈ t.past, LoadedWith v1 v2 p.1)
    (here : LoadedWith v1 v2 (f t.hw)) : AllLoaded v1 v2 (t.write f) := by
  refine ⟨here,?_⟩
  intro p member
  cases List.mem_append.mp member with
  | inl old => exact past p old
  | inr new =>
    cases List.mem_singleton.mp new
    exact here

theorem AllLoaded.write (loaded : AllLoaded v1 v2 t)
    (keeps : LoadedWith v1 v2 t.hw → LoadedWith v1 v2 (f t.hw)) :
    AllLoaded v1 v2 (t.write f) :=
  write_allLoaded loaded.2 (keeps loaded.1)

theorem AllLoaded.delay (loaded : AllLoaded v1 v2 t) (us : Nat) :
    AllLoaded v1 v2 (t.delay us) := by
  refine ⟨loaded.1,?_⟩
  intro p member
  cases List.mem_append.mp member with
  | inl old => exact loaded.2 p old
  | inr new =>
    cases List.mem_singleton.mp new
    exact loaded.1

theorem stopTimer_loaded (hw : Hw) : LoadedWith v1 v2 (stopTimer hw) := by
  intro runs
  simp [stopTimer, setTcon, Hw.started, Hw.updated] at runs

theorem cfgpin_loaded (mode : PinMode) (hw : Hw) (loaded : LoadedWith v1 v2 hw) :
    LoadedWith v1 v2 (cfgpin mode hw) := loaded

theorem setpin_loaded (level : Bool) (hw : Hw) (loaded : LoadedWith v1 v2 hw) :
    LoadedWith v1 v2 (setpin level hw) := loaded

theorem disable_loaded (past : ∀ p ∈ t.past, LoadedWith v1 v2 p.1) :
    AllLoaded v1 v2 (disableCarrierNothing t) := by
  have stopped := write_allLoaded past (stopTimer_loaded t.hw)
  exact (stopped.write (cfgpin_loaded .outp _)).write (setpin_loaded false _)

theorem noCarrier_loaded (past : ∀ p ∈ t.past, LoadedWith v1 v2 p.1) :
    AllLoaded v1 v2 (enableNoCarrier t) := by
  have stopped := write_allLoaded past (stopTimer_loaded t.hw)
  exact (stopped.write (cfgpin_loaded .outp _)).write (setpin_loaded true _)

theorem enable_loaded (loaded : AllLoaded v1 v2 t) :
    AllLoaded v1 v2 (enableCarrierProcess v1 v2 t) := by
  have pin := loaded.write (cfgpin_loaded .tout1 _)
  have prescaler := pin.write (f := fun hw => { hw with tcfg0 := hw.tcfg0 &&& ~~~0xFF }) id
  have mux := prescaler.write
    (f := fun hw => { hw with tcfg1 := hw.tcfg1 &&& ~~~(15 <<< 4 : BitVec 32) }) id
  have divider := mux.write (f := fun hw => { hw with tcfg1 := hw.tcfg1 ||| 1 <<< 4 }) id
  have count := divider.write (f := fun hw => { hw with tcntb1 := BitVec.ofNat 32 v1 })
    fun old runs => ⟨rfl,(old runs).2⟩
  have compare := count.write (f := fun hw => { hw with tcmpb1 := BitVec.ofNat 32 v2 })
    fun old runs => ⟨(old runs).1,rfl⟩
  have stopped := compare.write fun _ => stopTimer_loaded _
  -- From here on the two values are those of this call.
  have update := stopped.write (f := setTcon (· ||| tconT1Manualupd)) fun _ _ => ⟨rfl,rfl⟩
  have start := update.write (f := setTcon (· ||| (tconT1Reload ||| tconT1Start)))
    fun _ _ => ⟨rfl,rfl⟩
  exact start.write fun _ _ => ⟨rfl,rfl⟩

theorem playWord_loaded (loaded : AllLoaded v1 v2 t) (word : BitVec 32) :
    AllLoaded v1 v2 (playWord v1 v2 t word) := by
  rcases playWord_cases t v1 v2 word with ⟨us,_,same⟩ | ⟨us,u,_,same,rfl | rfl⟩
  · rw [same]
    exact ((noCarrier_loaded loaded.2).delay _).delay _
  · rw [same]
    exact ((enable_loaded loaded).delay _).delay _
  · rw [same]
    exact ((disable_loaded loaded.2).delay _).delay _

theorem play_loaded (loaded : AllLoaded v1 v2 t) (words : List (BitVec 32)) :
    AllLoaded v1 v2 (words.foldl (playWord v1 v2) t) := by
  induction words generalizing t with
  | nil => exact loaded
  | cons word words ih => exact ih (playWord_loaded loaded word)

theorem loaded_range (first : BitVec 32) {hw : Hw}
    (loaded : LoadedWith (clockFrequency / carrierFrequency first)
      (clockFrequency / carrierFrequency first / 2) hw) : Loaded hw := by
  have slow : carrierFrequencyMin ≤ carrierFrequency first ∧
      carrierFrequency first ≤ carrierFrequencyMax := by
    unfold carrierFrequency carrierFrequencyMin carrierFrequencyMax
    dsimp only
    split <;> split <;> omega
  obtain ⟨low,high⟩ := slow
  have least : 24 ≤ clockFrequency / carrierFrequency first :=
    Nat.div_le_div_left (a := clockFrequency) high
      (Nat.lt_of_lt_of_le (by decide : 0 < carrierFrequencyMin) low)
  have most : clockFrequency / carrierFrequency first ≤ 600 :=
    Nat.div_le_div_left (a := clockFrequency) low (by decide : 0 < carrierFrequencyMin)
  intro runs
  obtain ⟨count,compare⟩ := loaded runs
  generalize clockFrequency / carrierFrequency first = v1 at *
  have small : v1 < 2 ^ 32 := Nat.lt_of_le_of_lt most (by decide)
  rw [count, compare, BitVec.toNat_ofNat, BitVec.toNat_ofNat, Nat.mod_eq_of_lt small,
    Nat.mod_eq_of_lt (Nat.lt_of_le_of_lt (Nat.div_le_self v1 2) small)]
  exact ⟨⟨least,most⟩,rfl⟩

end

theorem write_loaded (txData : Vector (BitVec 32) 100) (count : Nat) (hw : Hw) :
    ∀ p ∈ (irTransmissionWrite txData count hw).past, Loaded p.1 := by
  intro p member
  have nothing : ∀ p ∈ ([] : List (Hw × Nat)),
      LoadedWith (clockFrequency / carrierFrequency txData[0])
        (clockFrequency / carrierFrequency txData[0] / 2) p.1 := by simp
  have start := disable_loaded (t := { hw := hw, past := [] }) nothing
  have ends := disable_loaded (play_loaded start (played txData count)).2
  exact loaded_range txData[0] (ends.2 p member)

theorem played_length (txData : Vector (BitVec 32) 100) (count : Nat) :
    (played txData count).length ≤ min count 100 - 1 := by
  unfold played bufferMax
  rw [List.length_tail, List.length_take]
  split <;> omega

/-- The call protects the LED exactly when no stretch of marks without carrier is too long. -/
theorem ir_led_protected (moments : Bool) (txData : Vector (BitVec 32) 100) (count : Nat)
    (hw : Hw) : Protected moments txData count hw ↔
      Bounded noCarrierDelayMax (lasting moments ((played txData count).map wordEntry)) := by
  rw [← ledSpared_write moments txData count hw]
  constructor
  · intro safe
    exact safe.spared
  · intro spared
    exact ⟨spared,played_length txData count,write_loaded txData count hw,
      by simp [irTransmissionWrite, disableCarrierNothing, Trace.write, stopTimer, setTcon,
        cfgpin, setpin, Hw.started],rfl,rfl⟩

def twoMarks : Vector (BitVec 32) 100 :=
  Vector.ofFn fun i => if i.val = 1 ∨ i.val = 2 then 0xC0000014 else 38000

def idle : Hw :=
  { tcon := 0, tcfg0 := 0, tcfg1 := 0, tcntb1 := 0, tcmpb1 := 0, gpb1 := .outp, dat := false }

theorem twoMarks_unprotected : ¬Protected true twoMarks 3 idle ∧ ¬Protected false twoMarks 3 idle := by
  have long (moments : Bool) : ¬LedSpared moments (irTransmissionWrite twoMarks 3 idle) := by
    rw [ledSpared_write, bounded_iff]
    cases moments <;> decide
  exact ⟨fun safe => long true safe.spared,fun safe => long false safe.spared⟩

end JiveIrtx
