import SqueezeOS.StepRuns
import Mathlib.Algebra.BigOperators.Group.List.Basic
import Mathlib.Data.BitVec
import Mathlib.Logic.Function.Basic

/- The scroll wheel of the Jive: an interrupt starts the scans, which decode the quadrature of
   the two lines A and B and the center button, until nothing has moved for half a second. -/
namespace JiveWheel
open StepRuns

def hz : BitVec 32 := 200

def pulsesPerDetent : Int := 2

structure Pins where
  gpg4 : Bool
  gpg5 : Bool
  gpf7 : Bool
  deriving DecidableEq, Repr

inductive Event where
  | key (down : Bool)
  | rel (turn : Int)
  deriving DecidableEq, Repr

/-- `lines` says that the three lines raise interrupts, and `timer` that wheel_timer is armed.
    `events` holds what was reported, the latest first. The last three are not in the driver:
    the clockwise transitions less the others, jiffies at the last of them, and what the scans
    have read of the button. -/
structure Wheel where
  pos : Int
  lastAB : BitVec 32
  state : Fin 1 → BitVec 32
  index : Fin 1
  lastButton : BitVec 32
  clickJiffies : BitVec 32
  timer : Bool
  lines : Bool
  events : List Event
  accepted : Int
  lastClick : Option (BitVec 32)
  buttons : List Bool

def wheelInit : Wheel :=
  { pos := 0, lastAB := 0, state := fun _ => 0, index := 0, lastButton := 0, clickJiffies := 0
    timer := false, lines := true, events := [], accepted := 0, lastClick := none, buttons := [] }

def nextIndex (index : Fin 1) : Fin 1 :=
  if h : index.val + 1 ≥ 1 then 0 else ⟨index.val + 1,by omega⟩

def readAB (pins : Pins) : BitVec 32 :=
  (if pins.gpg4 then 1 <<< 0 else 0) ||| (if pins.gpg5 then 1 <<< 1 else 0)

def nextButton (pins : Pins) (s : Wheel) : BitVec 32 :=
  s.lastButton <<< 1 ||| (if pins.gpf7 then 1 else 0)

def debounced (state : Fin 1 → BitVec 32) : BitVec 32 := (List.ofFn state).foldl (· &&& ·) 0xFF

def turn (ABCD : BitVec 32) : Int :=
  if ABCD = 0x1 ∨ ABCD = 0x8 ∨ ABCD = 0x7 ∨ ABCD = 0xE then 1
  else if ABCD = 0xB ∨ ABCD = 0x4 ∨ ABCD = 0x2 ∨ ABCD = 0xD then -1
  else 0

/-- Both lines are read and a transition is accepted; jiffies is `click` then. -/
def rotate (pins : Pins) (click : BitVec 32) (s : Wheel) : Wheel :=
  let index := nextIndex s.index
  let state := Function.update s.state index (readAB pins)
  let AB := debounced state
  let way := turn (AB <<< 2 ||| s.lastAB)
  let s := { s with index := index, state := state }
  if way = 0 then s
  else { s with pos := s.pos + way, lastAB := AB, clickJiffies := click
                accepted := s.accepted + way, lastClick := some click }

def history (button : BitVec 32) : BitVec 32 := button &&& 0xFF

def reportButton (pins : Pins) (s : Wheel) : Wheel :=
  let button := nextButton pins s
  let s := { s with buttons := pins.gpf7 :: s.buttons }
  let s := if history button ≠ history s.lastButton then
      { s with events := .key (history button > 0) :: s.events, pos := 0 }
    else s
  { s with lastButton := button }

def updateDetent (s : Wheel) : Wheel :=
  let s := if s.pos > pulsesPerDetent then { s with events := .rel 1 :: s.events, pos := 0 } else s
  if s.pos < -pulsesPerDetent then { s with events := .rel (-1) :: s.events, pos := 0 } else s

/-- Whether the wheel is scanned again; jiffies is `now` then. -/
def rearm (now : BitVec 32) (s : Wheel) : Wheel :=
  if now < s.clickJiffies + hz / 2 ∨ s.lastButton > 0 then { s with timer := true }
  else { s with pos := 0, lines := true }

def wheelScan (pins : Pins) (click now : BitVec 32) (s : Wheel) : Wheel :=
  rearm now (updateDetent (reportButton pins (rotate pins click s)))

def wheelIrq (s : Wheel) : Wheel := { s with lines := false, timer := true }

inductive Action where
  | irq
  | scan (pins : Pins) (click now : BitVec 32)
  deriving DecidableEq, Repr

/-- A scan is taken whether or not the timer is armed. -/
def step (s : Wheel) : Action → Option Wheel
  | .irq => some (wheelIrq s)
  | .scan pins click now => some (wheelScan pins click now { s with timer := false })

def turns (s : Wheel) : Int :=
  (s.events.map fun event => match event with | .rel turn => turn | .key _ => 0).sum

def keyDown (s : Wheel) : Bool :=
  (s.events.findSome? fun event => match event with
    | .key down => some down
    | .rel _ => none).getD false

def phase (n : Int) : BitVec 32 :=
  if n % 4 = 0 then 0 else if n % 4 = 1 then 2 else if n % 4 = 2 then 3 else 1

structure Decoded (s : Wheel) : Prop where
  small : -2 ≤ s.pos ∧ s.pos ≤ 2
  phased : s.lastAB = phase s.accepted
  pressed : keyDown s = (s.buttons.take 8).any id

def Quiet (s : Wheel) : Action → Prop
  | .irq => True
  | .scan pins click now =>
      history (nextButton pins s) = history s.lastButton ∧
        (wheelScan pins click now { s with timer := false }).timer = true

section
variable {s : Wheel} (pins : Pins) (click now : BitVec 32)

theorem debounced_read (state : Fin 1 → BitVec 32) (index : Fin 1) :
    debounced (Function.update state (nextIndex index) (readAB pins)) = readAB pins := by
  have first : nextIndex index = 0 := Subsingleton.elim _ _
  rw [first]
  obtain ⟨a,b,_⟩ := pins
  cases a <;> cases b <;> simp [debounced, readAB]

theorem phase_mod (n : Int) : phase (n % 4) = phase n := by
  unfold phase
  rw [Int.emod_emod_of_dvd n (by decide)]

theorem turn_phase (n : Int) :
    turn (readAB pins <<< 2 ||| phase n) = 0 ∨
      (turn (readAB pins <<< 2 ||| phase n) = 1 ∨ turn (readAB pins <<< 2 ||| phase n) = -1) ∧
        readAB pins = phase (n + turn (readAB pins <<< 2 ||| phase n)) := by
  have low := Int.emod_nonneg n (by decide : (4 : Int) ≠ 0)
  have high := Int.emod_lt_of_pos n (by decide : (0 : Int) < 4)
  have sum (way : Int) : phase (n + way) = phase (n % 4 + way) := by
    rw [← phase_mod, ← phase_mod (n % 4 + way), Int.emod_add_emod]
  rw [sum, ← phase_mod n]
  generalize n % 4 = r at low high
  have rest : r = 0 ∨ r = 1 ∨ r = 2 ∨ r = 3 := by omega
  obtain ⟨a,b,button⟩ := pins
  rcases rest with rfl | rfl | rfl | rfl <;> cases a <;> cases b <;> cases button <;> decide

theorem turn_jump (n : Int) (jump : readAB pins ^^^ phase n = 3) :
    turn (readAB pins <<< 2 ||| phase n) = 0 := by
  have low := Int.emod_nonneg n (by decide : (4 : Int) ≠ 0)
  have high := Int.emod_lt_of_pos n (by decide : (0 : Int) < 4)
  rw [← phase_mod n] at jump ⊢
  generalize n % 4 = r at low high jump ⊢
  have rest : r = 0 ∨ r = 1 ∨ r = 2 ∨ r = 3 := by omega
  obtain ⟨a,b,button⟩ := pins
  revert jump
  rcases rest with rfl | rfl | rfl | rfl <;> cases a <;> cases b <;> cases button <;> decide

theorem phase_inj {m n : Int} (same : phase m = phase n) : (4 : Int) ∣ m - n := by
  have lowm := Int.emod_nonneg m (by decide : (4 : Int) ≠ 0)
  have highm := Int.emod_lt_of_pos m (by decide : (0 : Int) < 4)
  have lown := Int.emod_nonneg n (by decide : (4 : Int) ≠ 0)
  have highn := Int.emod_lt_of_pos n (by decide : (0 : Int) < 4)
  have rests : m % 4 = n % 4 := by
    rw [← phase_mod m, ← phase_mod n] at same
    generalize m % 4 = r at *
    generalize n % 4 = q at *
    have first : r = 0 ∨ r = 1 ∨ r = 2 ∨ r = 3 := by omega
    have second : q = 0 ∨ q = 1 ∨ q = 2 ∨ q = 3 := by omega
    revert same
    rcases first with rfl | rfl | rfl | rfl <;> rcases second with rfl | rfl | rfl | rfl <;> decide
  omega

theorem rotate_cases (phased : s.lastAB = phase s.accepted) :
    ((rotate pins click s).pos = s.pos ∧ (rotate pins click s).accepted = s.accepted ∧
        (rotate pins click s).lastAB = s.lastAB) ∨
      ∃ way, (way = 1 ∨ way = -1) ∧ (rotate pins click s).pos = s.pos + way ∧
        (rotate pins click s).accepted = s.accepted + way ∧
        (rotate pins click s).lastAB = phase (s.accepted + way) := by
  unfold rotate
  simp only [debounced_read, phased]
  rcases turn_phase pins s.accepted with still | ⟨way,next⟩
  · left
    simp [still]
  · right
    have moved : turn (readAB pins <<< 2 ||| phase s.accepted) ≠ 0 := by omega
    rw [if_neg moved]
    exact ⟨_,way,rfl,rfl,next⟩

theorem rotate_rest : (rotate pins click s).events = s.events ∧
    (rotate pins click s).lastButton = s.lastButton ∧
    (rotate pins click s).buttons = s.buttons ∧ (rotate pins click s).timer = s.timer := by
  unfold rotate
  dsimp only
  split <;> exact ⟨rfl,rfl,rfl,rfl⟩

theorem reportButton_rest :
    (reportButton pins s).lastAB = s.lastAB ∧ (reportButton pins s).accepted = s.accepted ∧
      (reportButton pins s).lastButton = nextButton pins s ∧
      (reportButton pins s).buttons = pins.gpf7 :: s.buttons ∧
      turns (reportButton pins s) = turns s ∧ (reportButton pins s).timer = s.timer := by
  unfold reportButton
  dsimp only
  split <;> simp [turns]

theorem reportButton_pos : (reportButton pins s).pos =
    if history (nextButton pins s) ≠ history s.lastButton then 0 else s.pos := by
  unfold reportButton
  dsimp only
  split <;> rfl

theorem reportButton_key (key : keyDown s = decide (history s.lastButton > 0)) :
    keyDown (reportButton pins s) = decide (history (nextButton pins s) > 0) := by
  unfold reportButton
  dsimp only
  split
  · rfl
  · rename_i same
    rw [not_not] at same
    rw [same]
    exact key

theorem updateDetent_spec (near : -3 ≤ s.pos ∧ s.pos ≤ 3) :
    3 * turns (updateDetent s) + (updateDetent s).pos = 3 * turns s + s.pos ∧
      (-2 ≤ (updateDetent s).pos ∧ (updateDetent s).pos ≤ 2) ∧
      keyDown (updateDetent s) = keyDown s := by
  have three : s.pos > 2 → s.pos = 3 := by omega
  have back : s.pos < -2 → s.pos = -3 := by omega
  unfold updateDetent pulsesPerDetent
  by_cases up : s.pos > 2
  · simp only [up, if_true]
    simp [turns, keyDown, three up]
    omega
  · simp only [up, if_false]
    by_cases down : s.pos < -2
    · simp only [down, if_true]
      simp [turns, keyDown, back down]
      omega
    · simp only [down, if_false]
      exact ⟨trivial,by omega,trivial⟩

theorem updateDetent_rest :
    (updateDetent s).lastAB = s.lastAB ∧ (updateDetent s).accepted = s.accepted ∧
      (updateDetent s).lastButton = s.lastButton ∧ (updateDetent s).buttons = s.buttons ∧
      (updateDetent s).timer = s.timer := by
  unfold updateDetent
  dsimp only
  split <;> split <;> exact ⟨rfl,rfl,rfl,rfl,rfl⟩

theorem rearm_rest :
    (rearm now s).lastAB = s.lastAB ∧ (rearm now s).accepted = s.accepted ∧
      (rearm now s).lastButton = s.lastButton ∧ (rearm now s).buttons = s.buttons ∧
      (rearm now s).events = s.events := by
  unfold rearm
  split <;> exact ⟨rfl,rfl,rfl,rfl,rfl⟩

theorem rearm_pos : (rearm now s).pos = s.pos ∨ (rearm now s).pos = 0 := by
  unfold rearm
  split
  · exact .inl rfl
  · exact .inr rfl

def Tracked (s : Wheel) : Prop := ∀ i < 8, s.lastButton.getLsbD i = s.buttons.getD i false

theorem tracked_next (tracked : Tracked s) :
    ∀ i < 8, (nextButton pins s).getLsbD i = (pins.gpf7 :: s.buttons).getD i false := by
  intro i hi
  cases i with
  | zero => cases button : pins.gpf7 <;> simp [nextButton, button]
  | succ i =>
    have inside : i + 1 < 32 := by omega
    have old := tracked i (by omega)
    rw [List.getD_cons_succ, ← old]
    rw [nextButton, BitVec.getLsbD_or, BitVec.getLsbD_shiftLeft, decide_eq_true inside]
    cases pins.gpf7 <;> simp

theorem history_positive (button : BitVec 32) :
    history button > 0 ↔ ∃ i < 8, button.getLsbD i = true := by
  have mask : ∀ i < 32, (0xFF : BitVec 32).getLsbD i = decide (i < 8) := by decide
  have clear (i : Nat) : (0 : BitVec 32).getLsbD i = false := BitVec.getLsbD_zero
  have positive : history button > 0 ↔ history button ≠ 0 := BitVec.pos_iff_ne_zero _
  rw [positive]
  constructor
  · intro nonzero
    by_contra none
    apply nonzero
    apply BitVec.eq_of_getLsbD_eq
    intro i hi
    rw [history, BitVec.getLsbD_and, mask i hi, clear, Bool.and_eq_false_iff,
      decide_eq_false_iff_not]
    by_cases low : i < 8
    · left
      rw [← Bool.not_eq_true]
      exact fun set => none ⟨i,low,set⟩
    · exact .inr low
  · rintro ⟨i,low,set⟩ zero
    have bit := congrArg (fun word => word.getLsbD i) zero
    simp only [history, BitVec.getLsbD_and, set, mask i (by omega), low, decide_true,
      Bool.true_and, clear, Bool.true_eq_false] at bit

theorem pressed_iff (tracked : Tracked s) :
    decide (history s.lastButton > 0) = (s.buttons.take 8).any id := by
  have read (i : Nat) (low : i < 8) :
      s.lastButton.getLsbD i = true ↔ (s.buttons.take 8)[i]? = some true := by
    rw [tracked i low, List.getElem?_take_of_lt low, List.getD_eq_getElem?_getD]
    cases s.buttons[i]? <;> simp
  rw [Bool.eq_iff_iff, decide_eq_true_eq, history_positive, List.any_eq_true]
  constructor
  · rintro ⟨i,low,set⟩
    exact ⟨true,List.mem_of_getElem? ((read i low).mp set),rfl⟩
  · rintro ⟨button,member,set⟩
    obtain ⟨i,found⟩ := List.mem_iff_getElem?.mp member
    have low : i < 8 := by
      by_contra high
      rw [List.getElem?_take_eq_none (Nat.not_lt.mp high)] at found
      contradiction
    have down : button = true := set
    subst down
    exact ⟨i,low,(read i low).mpr found⟩

structure Inv (s : Wheel) : Prop where
  small : -2 ≤ s.pos ∧ s.pos ≤ 2
  phased : s.lastAB = phase s.accepted
  tracked : Tracked s
  key : keyDown s = decide (history s.lastButton > 0)

theorem Inv.decoded (inv : Inv s) : Decoded s :=
  ⟨inv.small,inv.phased,inv.key.trans (pressed_iff inv.tracked)⟩

theorem wheelInit_inv : Inv wheelInit := by
  refine ⟨by decide,by decide,?_,by decide⟩
  intro i _
  simp [wheelInit]

/-- What is reported, what is still held back, and what was accepted. -/
def balance (s : Wheel) : Int := 3 * turns s + s.pos - s.accepted

theorem rotate_inv (inv : Inv s) :
    (-3 ≤ (rotate pins click s).pos ∧ (rotate pins click s).pos ≤ 3) ∧
      (rotate pins click s).lastAB = phase (rotate pins click s).accepted ∧
      balance (rotate pins click s) = balance s := by
  have small := inv.small
  have reported : turns (rotate pins click s) = turns s := by
    rw [turns, (rotate_rest pins click).1, turns]
  unfold balance
  rw [reported]
  rcases rotate_cases pins click inv.phased with ⟨pos,accepted,last⟩ | ⟨way,one,pos,accepted,last⟩
  · rw [pos, accepted, last]
    exact ⟨by omega,inv.phased,rfl⟩
  · rw [pos, accepted, last]
    exact ⟨by omega,rfl,by omega⟩

def decode (pins : Pins) (click : BitVec 32) (s : Wheel) : Wheel :=
  updateDetent (reportButton pins (rotate pins click s))

theorem decode_near (inv : Inv s) : -3 ≤ (reportButton pins (rotate pins click s)).pos ∧
    (reportButton pins (rotate pins click s)).pos ≤ 3 := by
  obtain ⟨near,_,_⟩ := rotate_inv pins click inv
  rw [reportButton_pos]
  split
  · decide
  · exact near

theorem decode_inv (inv : Inv s) : Inv (decode pins click s) := by
  obtain ⟨_,phased,_⟩ := rotate_inv pins click inv
  obtain ⟨events,button,buttons,_⟩ := rotate_rest (s := s) pins click
  obtain ⟨last,accepted,new,read,_⟩ := reportButton_rest (s := rotate pins click s) pins
  obtain ⟨last',accepted',new',read',_⟩ :=
    updateDetent_rest (s := reportButton pins (rotate pins click s))
  obtain ⟨_,small,key⟩ := updateDetent_spec (decode_near pins click inv)
  have tracked : Tracked (rotate pins click s) := by
    unfold Tracked
    rw [button, buttons]
    exact inv.tracked
  have down : keyDown (rotate pins click s) =
      decide (history (rotate pins click s).lastButton > 0) := by
    rw [button, ← inv.key, keyDown, events, keyDown]
  constructor
  · exact small
  · exact last'.trans (last.trans (phased.trans (congrArg phase (accepted'.trans accepted).symm)))
  · unfold Tracked decode
    rw [new', new, read', read]
    exact tracked_next pins tracked
  · rw [decode, key, reportButton_key pins down, new', new]

theorem rearm_inv (inv : Inv s) : Inv (rearm now s) := by
  obtain ⟨last,accepted,button,buttons,events⟩ := rearm_rest (s := s) now
  constructor
  · rcases rearm_pos (s := s) now with same | zero
    · rw [same]
      exact inv.small
    · rw [zero]
      decide
  · rw [last, accepted]
    exact inv.phased
  · unfold Tracked
    rw [button, buttons]
    exact inv.tracked
  · rw [keyDown, events, button]
    exact inv.key

theorem wheelScan_inv (inv : Inv s) : Inv (wheelScan pins click now s) :=
  rearm_inv now (decode_inv pins click inv)

theorem decode_balance (inv : Inv s)
    (same : history (nextButton pins s) = history s.lastButton) :
    balance (decode pins click s) = balance s := by
  obtain ⟨_,_,kept⟩ := rotate_inv pins click inv
  obtain ⟨_,button,_,_⟩ := rotate_rest (s := s) pins click
  obtain ⟨_,accepted,_,_,reported,_⟩ := reportButton_rest (s := rotate pins click s) pins
  obtain ⟨_,accepted',_,_,_⟩ := updateDetent_rest (s := reportButton pins (rotate pins click s))
  obtain ⟨sum,_,_⟩ := updateDetent_spec (decode_near pins click inv)
  have pos : (reportButton pins (rotate pins click s)).pos = (rotate pins click s).pos := by
    rw [reportButton_pos, nextButton, button]
    exact if_neg (not_not.mpr same)
  rw [← kept, balance, decode, sum, accepted', accepted, reported, pos, balance]

theorem rearm_armed (unarmed : s.timer = false) (armed : (rearm now s).timer = true) :
    rearm now s = { s with timer := true } := by
  unfold rearm at armed ⊢
  split
  · rfl
  · rename_i stop
    rw [if_neg stop] at armed
    exact absurd armed (by simp [unarmed])

theorem decode_timer : (decode pins click s).timer = s.timer := by
  obtain ⟨_,_,_,timer⟩ := rotate_rest (s := s) pins click
  obtain ⟨_,_,_,_,_,timer'⟩ := reportButton_rest (s := rotate pins click s) pins
  obtain ⟨_,_,_,_,timer''⟩ := updateDetent_rest (s := reportButton pins (rotate pins click s))
  exact timer''.trans (timer'.trans timer)

end

section
variable {s t : Wheel} {visited : List (Wheel × Action)}

theorem Inv.disarmed (inv : Inv s) (timer : Bool) : Inv { s with timer := timer } :=
  ⟨inv.small,inv.phased,inv.tracked,inv.key⟩

theorem step_inv (s : Wheel) (a : Action) (t : Wheel) (inv : Inv s) (next : step s a = some t) :
    Inv t := by
  cases a with
  | irq =>
    cases Option.some.inj next
    exact ⟨inv.small,inv.phased,inv.tracked,inv.key⟩
  | scan pins click now =>
    cases Option.some.inj next
    exact wheelScan_inv pins click now (inv.disarmed false)

theorem step_balance {a : Action} (inv : Inv s) (next : step s a = some t) (quiet : Quiet s a) :
    balance t = balance s := by
  cases a with
  | irq =>
    cases Option.some.inj next
    rfl
  | scan pins click now =>
    cases Option.some.inj next
    obtain ⟨same,armed⟩ := quiet
    have unarmed := decode_timer pins click (s := { s with timer := false })
    have kept := decode_balance pins click (inv.disarmed false) same
    have scanned := rearm_armed now unarmed armed
    rw [wheelScan, ← decode, scanned]
    exact kept

theorem run_balance (inv : Inv s) (run : Run step s visited t) (quiet : Every Quiet visited) :
    balance t = balance s := by
  induction run with
  | done => rfl
  | step next rest ih =>
    obtain ⟨first,later⟩ := every_cons.mp quiet
    exact (ih (step_inv _ _ _ inv next) later).trans (step_balance inv next first)

theorem run_inv (run : Run step wheelInit visited s) : Inv s :=
  (run.invariant wheelInit_inv step_inv).2

/-- In every state reached the motion is decoded, what is reported in a quiet stretch is what
    was accepted in it, an error is of whole periods, and a jump is not counted. -/
theorem wheel_loses_no_motion {stretch : List (Wheel × Action)}
    (reached : Run step wheelInit visited s) (later : Run step s stretch t) :
    Decoded s ∧
      (Every Quiet stretch →
        3 * (turns t - turns s) + (t.pos - s.pos) = t.accepted - s.accepted) ∧
      (∀ n, s.lastAB = phase n → (4 : Int) ∣ s.accepted - n) ∧
      ∀ pins click now, readAB pins ^^^ s.lastAB = 3 →
        (wheelScan pins click now s).accepted = s.accepted := by
  have inv := run_inv reached
  refine ⟨inv.decoded,?_,?_,?_⟩
  · intro quiet
    have kept := run_balance inv later quiet
    unfold balance at kept
    omega
  · intro n same
    exact phase_inj (inv.phased.symm.trans same)
  · intro pins click now jump
    rw [inv.phased] at jump
    have still : (rotate pins click s).accepted = s.accepted := by
      simp [rotate, debounced_read, inv.phased, turn_jump pins s.accepted jump]
    obtain ⟨_,accepted,_⟩ := reportButton_rest (s := rotate pins click s) pins
    obtain ⟨_,accepted',_⟩ := updateDetent_rest (s := reportButton pins (rotate pins click s))
    obtain ⟨_,accepted'',_⟩ := rearm_rest (s := decode pins click s) now
    exact accepted''.trans (accepted'.trans (accepted.trans still))

def scanned (pins : Pins) (click now : BitVec 32) (s : Wheel) : Wheel :=
  wheelScan pins click now { s with timer := false }

theorem three_steps :
    let one := scanned ⟨false,true,false⟩ 0 1 wheelInit
    let two := scanned ⟨true,true,false⟩ 1 2 one
    let three := scanned ⟨true,false,false⟩ 2 3 two
    turns three = 1 ∧ 3 * (turns three - 0) + (three.pos - 0) = three.accepted - 0 := by
  intro one two three
  have run : Run step wheelInit [(wheelInit, .scan ⟨false,true,false⟩ 0 1),
      (one, .scan ⟨true,true,false⟩ 1 2), (two, .scan ⟨true,false,false⟩ 2 3)] three :=
    .step rfl (.step rfl (.step rfl .done))
  refine ⟨by decide +kernel,(wheel_loses_no_motion .done run).2.1 ?_⟩
  intro p member
  simp only [List.mem_cons, List.not_mem_nil, or_false] at member
  rcases member with rfl | rfl | rfl <;> exact ⟨by decide +kernel,by decide +kernel⟩

end

end JiveWheel
