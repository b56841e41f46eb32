import SqueezeOS.Baby.Codec

/- Headphone detection: a timer that turns the detection of the codec on and then reads its
   result, register 14, time after time. -/
namespace Headphone
open StepRuns Codec

inductive Control where
  | headphoneSwitch
  | headphoneButton
  deriving DecidableEq, Repr

/-- Of struct aic3104_priv, with the codec; `armed` tells whether the timer is running. -/
structure Priv where
  codec : State
  detected : Bool
  button : Bool
  type : Nat
  detectPhase : Nat
  armed : Bool

/-- What a run of the callback meets: the contents of register 14, which of the transfers of
    its two writes arrive, and for its read whether the page select arrives and what
    i2c_smbus_read_byte_data returns, where that is an error. -/
structure Turn where
  contents : UInt8
  offPage : Bool
  offData : Bool
  onPage : Bool
  onData : Bool
  readPage : Bool
  ret : Int

def bit (val : Int) (i : Nat) : Bool := (BitVec.ofInt 32 val).getLsbD i

def hpSense : Nat := 0
def hpPress : Nat := 0

/-- The chip updates its register by itself. -/
def sense (contents : UInt8) (codec : State) : State :=
  { codec with chip := { codec.chip with regs := Function.update codec.chip.regs 14 contents } }

/-- Phase 1, from where register 14 has been read. -/
def detect (val : Int) (s : Priv) : Priv × List Control :=
  let headsetDetected := bit val 4
  let buttonDetected := bit val 5
  let (s, notified) := if s.button ≠ buttonDetected then
      ({ s with button := buttonDetected }, [Control.headphoneButton])
    else (s, [])
  if s.detected = headsetDetected then (s, notified)
  else ({ s with detected := headsetDetected, type := 1, detectPhase := 0 },
    notified ++ [.headphoneSwitch])

/-- The controls that are notified are the second result. -/
def timerCallback (turn : Turn) (s : Priv) : Priv × List Control :=
  let s := { s with codec := sense turn.contents s.codec }
  let (s, notified) := match s.detectPhase with
    | 0 =>
      let codec := (writeReg 13 0 turn.offPage turn.offData s.codec).2
      let codec := (writeReg 13 (1 <<< 7 ||| hpSense <<< 2 ||| hpPress <<< 0) turn.onPage
        turn.onData codec).2
      ({ s with codec := codec, detectPhase := 1 }, [])
    | 1 =>
      let read := readReg 14 turn.readPage turn.ret s.codec
      detect read.1 { s with codec := read.2 }
    | _ => (s, [])
  ({ s with armed := true }, notified)

def step (s : Priv) (turn : Turn) : Option Priv :=
  if s.armed then some (timerCallback turn { s with armed := false }).1 else none

def headphoneSwitchGet (s : Priv) : Nat := if s.detected then s.type else 0
def headphoneButtonGet (s : Priv) : Nat := if s.button then 1 else 0

def value (s : Priv) : Control → Nat
  | .headphoneSwitch => headphoneSwitchGet s
  | .headphoneButton => headphoneButtonGet s

def Turn.OnPage (turn : Turn) (s : Priv) : Prop := turn.readPage = true ∨ s.codec.regPage = 0

instance (turn : Turn) (s : Priv) : Decidable (turn.OnPage s) :=
  inferInstanceAs (Decidable (_ ∨ _))

def Turn.Reads (turn : Turn) (s : Priv) : Prop :=
  s.detectPhase = 1 ∧ turn.OnPage s ∧ 0 ≤ turn.ret

/-- Detection follows what is read and nothing else, the controls that change are notified, and
    the timer is armed again. -/
structure Sound (s : Priv) (turn : Turn) : Prop where
  read : turn.Reads s →
    (timerCallback turn s).1.detected = bit turn.contents.toNat 4 ∧
    (timerCallback turn s).1.button = bit turn.contents.toNat 5
  kept : ¬turn.Reads s →
    (timerCallback turn s).1.detected = s.detected ∧ (timerCallback turn s).1.button = s.button
  notified : ∀ control, control ∈ (timerCallback turn s).2 ↔
    value (timerCallback turn s).1 control ≠ value s control
  again : (timerCallback turn s).1.armed = true

def mistaken (s : Priv) (turn : Turn) : Int :=
  if turn.readPage = true ∨ s.codec.regPage = 0 then turn.ret % 256 else eio

def Unnoticed (s : Priv) (turn : Turn) : Prop :=
  s.detectPhase = 1 → ¬(turn.OnPage s ∧ 0 ≤ turn.ret) →
    s.detected = bit (mistaken s turn) 4 ∧ s.button = bit (mistaken s turn) 5

structure Started (s : Priv) : Prop where
  page : s.codec.chip.page = s.codec.regPage
  detected : s.detected = false
  button : s.button = false
  phase : s.detectPhase = 0
  armed : s.armed = true

structure Inv (s : Priv) : Prop where
  page : s.codec.chip.page = s.codec.regPage
  type : s.detected = true → s.type = 1

theorem turnPage_page {s t : State} (page : s.chip.page = s.regPage) {ok : Bool}
    (turned : turnPage 0 ok s = some t) :
    t.chip.page = 0 ∧ t.regPage = 0 ∧ t.chip.regs = s.chip.regs := by
  unfold turnPage at turned
  split at turned
  · split at turned
    · cases Option.some.inj turned
      exact ⟨rfl,rfl,rfl⟩
    · contradiction
  · rename_i same
    cases Option.some.inj turned
    have zero : s.regPage = 0 := by omega
    exact ⟨page.trans zero,zero,rfl⟩

theorem turnPage_none_iff {s : State} {ok : Bool} :
    turnPage 0 ok s = none ↔ ¬(ok = true ∨ s.regPage = 0) := by
  unfold turnPage
  by_cases there : s.regPage = 0
  · simp [there]
  · cases ok <;> simp [there, Ne.symm there]

theorem writeReg_page {s : State} (page : s.chip.page = s.regPage) (value : Nat)
    (pageOk dataOk : Bool) :
    (writeReg 13 value pageOk dataOk s).2.chip.page =
      (writeReg 13 value pageOk dataOk s).2.regPage := by
  have byte : ¬(13 &&& writeWord ≠ 0) := by decide
  have select : (13 &&& 0x80) >>> 7 = 0 := by decide
  unfold writeReg
  rw [select]
  cases turned : turnPage 0 pageOk s with
  | none => exact page
  | some t =>
    obtain ⟨selected,known,_⟩ := turnPage_page page turned
    simp only [if_neg byte]
    cases dataOk with
    | false => exact selected.trans known.symm
    | true =>
      have still := Chip.write_page t.chip (show 13 &&& 0x7f ≠ 0 by decide) [UInt8.ofNat value]
      exact still.trans (selected.trans known.symm)

theorem readReg_page {s : State} (page : s.chip.page = s.regPage) (pageOk : Bool) (ret : Int) :
    (readReg 14 pageOk ret s).2.chip.page = (readReg 14 pageOk ret s).2.regPage := by
  unfold readReg
  cases turned : turnPage (14 >>> 7) pageOk s with
  | none => exact page
  | some t =>
    obtain ⟨selected,known,_⟩ := turnPage_page page turned
    simp only
    split
    · exact selected.trans known.symm
    · exact selected.trans known.symm

theorem readReg_value {s : State} (page : s.chip.page = s.regPage) (pageOk : Bool) (ret : Int) :
    (readReg 14 pageOk ret s).1 =
      if pageOk = true ∨ s.regPage = 0 then
        if ret < 0 then ret % 256 else ((s.chip.regs 14).toNat : Int)
      else eio := by
  unfold readReg
  cases turned : turnPage (14 >>> 7) pageOk s with
  | none => rw [if_neg (turnPage_none_iff.mp turned)]
  | some t =>
    obtain ⟨selected,_,regs⟩ := turnPage_page page turned
    have there : pageOk = true ∨ s.regPage = 0 := by
      by_contra away
      cases (turnPage_none_iff.mpr away).symm.trans turned
    rw [if_pos there]
    simp only
    split
    · rfl
    · simp [Chip.read, selected, regs]

theorem detect_spec (val : Int) (s : Priv) :
    (detect val s).1.detected = bit val 4 ∧ (detect val s).1.button = bit val 5 ∧
    (detect val s).1.codec = s.codec ∧
    (detect val s).1.type = (if s.detected = bit val 4 then s.type else 1) ∧
    (Control.headphoneSwitch ∈ (detect val s).2 ↔ s.detected ≠ bit val 4) ∧
    (Control.headphoneButton ∈ (detect val s).2 ↔ s.button ≠ bit val 5) := by
  unfold detect
  by_cases button : s.button = bit val 5 <;> by_cases detected : s.detected = bit val 4 <;>
    simp [button, detected]

theorem value_detect (val : Int) {s : Priv} (type : s.detected = true → s.type = 1)
    (control : Control) :
    control ∈ (detect val s).2 ↔ value (detect val s).1 control ≠ value s control := by
  obtain ⟨detected,button,_,typed,switch,pressed⟩ := detect_spec val s
  cases control with
  | headphoneSwitch =>
    simp only [switch, value, headphoneSwitchGet, detected, typed]
    cases now : s.detected <;> cases seen : bit val 4
    all_goals simp [now, type]
  | headphoneButton =>
    simp only [pressed, value, headphoneButtonGet, button]
    cases s.button <;> cases bit val 5
    all_goals simp

section
variable {s : Priv} {turn : Turn}

theorem sense_value (page : s.codec.chip.page = s.codec.regPage) :
    (readReg 14 turn.readPage turn.ret (sense turn.contents s.codec)).1 =
      if turn.OnPage s ∧ 0 ≤ turn.ret then (turn.contents.toNat : Int) else mistaken s turn := by
  have regs : (sense turn.contents s.codec).chip.regs 14 = turn.contents := by
    simp [sense]
  rw [readReg_value (s := sense turn.contents s.codec) page, regs]
  unfold mistaken Turn.OnPage
  change (if turn.readPage = true ∨ s.codec.regPage = 0 then _ else _) = _
  by_cases there : turn.readPage = true ∨ s.codec.regPage = 0
  · simp only [there, if_true, true_and]
    by_cases failed : turn.ret < 0
    · rw [if_pos failed, if_neg (by omega)]
    · rw [if_neg failed, if_pos (by omega)]
  · simp only [there, if_false, false_and]

/-- What a run in phase 1 takes for the contents of register 14 decides all the rest. -/
theorem callback_reading (inv : Inv s) (phase : s.detectPhase = 1) {val : Int}
    (taken : (readReg 14 turn.readPage turn.ret (sense turn.contents s.codec)).1 = val) :
    (timerCallback turn s).1.detected = bit val 4 ∧ (timerCallback turn s).1.button = bit val 5 ∧
    Inv (timerCallback turn s).1 ∧
    ∀ control, control ∈ (timerCallback turn s).2 ↔
      value (timerCallback turn s).1 control ≠ value s control := by
  have page := readReg_page (s := sense turn.contents s.codec) inv.page turn.readPage turn.ret
  generalize read : readReg 14 turn.readPage turn.ret (sense turn.contents s.codec) = found
    at taken page
  have run : timerCallback turn s =
      (({ (detect val { s with codec := found.2 }).1 with armed := true } : Priv),
        (detect val { s with codec := found.2 }).2) := by
    simp only [timerCallback, phase, read, taken]
  obtain ⟨detected,button,codec,type,_,_⟩ := detect_spec val { s with codec := found.2 }
  have kept : (detect val { s with codec := found.2 }).1.detected = true →
      (detect val { s with codec := found.2 }).1.type = 1 := by
    intro plugged
    rw [type]
    split
    · rename_i same
      exact inv.type (same.trans (detected.symm.trans plugged))
    · rfl
  rw [run]
  refine ⟨detected,button,⟨?_,kept⟩,?_⟩
  · simp only [codec]
    exact page
  · intro control
    have notified := value_detect val (s := { s with codec := found.2 }) inv.type control
    cases control
    all_goals exact notified

theorem callback_other (inv : Inv s) (phase : s.detectPhase ≠ 1) :
    (timerCallback turn s).1.detected = s.detected ∧ (timerCallback turn s).1.button = s.button ∧
    Inv (timerCallback turn s).1 ∧
    ∀ control, control ∈ (timerCallback turn s).2 ↔
      value (timerCallback turn s).1 control ≠ value s control := by
  have same (control : Control) {t : Priv} (detected : t.detected = s.detected)
      (button : t.button = s.button) (type : t.type = s.type) : value t control = value s control := by
    cases control <;>
      simp [value, headphoneSwitchGet, headphoneButtonGet, detected, button, type]
  unfold timerCallback
  simp only
  split
  · have page := writeReg_page (s := sense turn.contents s.codec) inv.page 0 turn.offPage
      turn.offData
    refine ⟨rfl,rfl,⟨writeReg_page page _ _ _,inv.type⟩,fun control => ?_⟩
    simp [same control]
  · contradiction
  · refine ⟨rfl,rfl,⟨inv.page,inv.type⟩,fun control => ?_⟩
    simp [same control]

theorem callback_inv (inv : Inv s) : Inv (timerCallback turn s).1 := by
  by_cases phase : s.detectPhase = 1
  · exact (callback_reading inv phase rfl).2.2.1
  · exact (callback_other inv phase).2.2.1

theorem sound_iff (inv : Inv s) : Sound s turn ↔ Unnoticed s turn := by
  by_cases phase : s.detectPhase = 1
  · obtain ⟨detected,button,_,notified⟩ := callback_reading inv phase (sense_value inv.page)
    by_cases reads : turn.OnPage s ∧ 0 ≤ turn.ret
    · rw [if_pos reads] at detected button
      refine iff_of_true ⟨fun _ => ⟨detected,button⟩,fun lost => ?_,notified,rfl⟩ ?_
      · exact absurd ⟨phase,reads⟩ lost
      · exact fun _ lost => absurd reads lost
    · rw [if_neg reads] at detected button
      constructor
      · intro sound _ _
        obtain ⟨headset,pressed⟩ := sound.kept (fun all => reads all.2)
        exact ⟨headset.symm.trans detected,pressed.symm.trans button⟩
      · intro unnoticed
        obtain ⟨headset,pressed⟩ := unnoticed phase reads
        refine ⟨fun all => absurd all.2 reads,fun _ => ⟨?_,?_⟩,notified,rfl⟩
        · exact detected.trans headset.symm
        · exact button.trans pressed.symm
  · obtain ⟨detected,button,_,notified⟩ := @callback_other s turn inv phase
    refine iff_of_true ⟨?_,fun _ => ⟨detected,button⟩,notified,rfl⟩ ?_
    · exact fun reads => absurd reads.1 phase
    · exact fun reading => absurd reading phase

end

theorem Started.inv {s : Priv} (started : Started s) : Inv s :=
  ⟨started.page,by simp [started.detected]⟩

theorem sound_armed_iff {s : Priv} {turn : Turn} (inv : Inv s) :
    Sound { s with armed := false } turn ↔ Unnoticed s turn :=
  sound_iff (s := { s with armed := false }) ⟨inv.page,inv.type⟩

/-- Every run of the callback is sound exactly when each failed read looks like the state there
    is. -/
theorem sound_iff_unnoticed {s t : Priv} (started : Started s) {visited : List (Priv × Turn)}
    (run : Run step s visited t) :
    Every (fun s turn => Sound { s with armed := false } turn) visited ↔
      Every Unnoticed visited := by
  apply run.every_iff started.inv
  · intro s turn u inv _ next
    unfold step at next
    split at next
    · cases Option.some.inj next
      exact callback_inv (s := { s with armed := false }) ⟨inv.page,inv.type⟩
    · contradiction
  · intro s turn u inv next
    exact sound_armed_iff inv

def unplugged : Priv :=
  { codec := afterReset, detected := false, button := false, type := 0, detectPhase := 0
    armed := true }

theorem unplugged_started : Started unplugged := ⟨rfl,rfl,rfl,rfl,rfl⟩

def arrives (contents : UInt8) (ret : Int) : Turn :=
  { contents := contents, offPage := true, offData := true, onPage := true, onData := true
    readPage := true, ret := ret }

theorem plugged_read : Started unplugged ∧ ∃ visited t,
    Run step unplugged visited t ∧ t.detected = true ∧
    Every (fun s turn => Sound { s with armed := false } turn) visited := by
  have run : Run step unplugged _ _ := run_follow [arrives 0 0, arrives 0x10 0] rfl
  refine ⟨unplugged_started,_,_,run,rfl,?_⟩
  apply (sound_iff_unnoticed unplugged_started run).mpr
  refine every_cons.mpr ⟨?_,every_cons.mpr ⟨?_,by simp [Every]⟩⟩
  · exact fun phase => absurd phase (by decide)
  · exact fun _ lost => absurd ⟨.inl rfl,by decide⟩ lost

/-- Nothing is plugged in, and the read fails with -EIO: its low byte has bits 4 and 5 set. -/
theorem failed_read_detected : Started unplugged ∧ ∃ visited t,
    Run step unplugged visited t ∧ t.detected = true ∧ t.button = true ∧
    ¬Every (fun s turn => Sound { s with armed := false } turn) visited := by
  have run : Run step unplugged _ _ := run_follow [arrives 0 0, arrives 0 (-5)] rfl
  refine ⟨unplugged_started,_,_,run,rfl,rfl,?_⟩
  intro sound
  have last := (every_cons.mp (every_cons.mp sound).2).1
  have kept := (last.kept (fun reads => absurd reads.2.2 (by decide))).1
  revert kept
  decide

end Headphone
