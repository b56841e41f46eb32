import SqueezeOS.StepRuns

/- One debounced front panel button, as baby-debounce.patch leaves its driver. The pin
   is high when the button is released; a falling edge latches an interrupt, and an
   armed timer expires at some later time. -/
namespace BabyButtons
open StepRuns

inductive ButtonState where
  | idle | pressed | hold | released
  deriving DecidableEq, Repr

/-- `events` holds what input_report_key was given for this button, the latest first:
    true for a press. -/
structure Button where
  bstate : ButtonState
  timer : Bool
  pin : Bool
  pending : Bool
  events : List Bool
  deriving DecidableEq, Repr

/-- A button that is down at probe starts the state machine without an event. -/
def probe (pin : Bool) : Button :=
  if pin then { bstate := .idle, timer := false, pin := pin, pending := false, events := [] }
  else { bstate := .hold, timer := true, pin := pin, pending := false, events := [] }

def inputReportKey (value : Bool) (s : Button) : Button := { s with events := value :: s.events }

def modTimer (s : Button) : Button := { s with timer := true }

def nextState (s : Button) : Button :=
  match s.bstate with
  | .idle => s
  | .pressed => { s with bstate := .hold }
  | .hold => if s.pin then inputReportKey false { s with bstate := .released } else s
  | .released => { s with bstate := .idle }

def buttonTimerCallback (s : Button) : Button :=
  if (nextState s).bstate ≠ .idle then modTimer (nextState s) else nextState s

/-- The handler's search through the buttons finds this one first, and once its state
    has left BUTTON_IDLE further matches do nothing. -/
def buttonIrq (s : Button) : Button :=
  if s.bstate = .idle then inputReportKey true { modTimer s with bstate := .pressed } else s

inductive Action where
  | level
  | irq
  | expiry
  deriving DecidableEq, Repr

def step (s : Button) : Action → Option Button
  | .level => some { s with pin := !s.pin, pending := s.pending || s.pin }
  | .irq => if s.pending then some (buttonIrq { s with pending := false }) else none
  | .expiry => if s.timer then some (buttonTimerCallback { s with timer := false }) else none

/-- What user space was told last; a button is up until something is reported. -/
def reportedReleased (s : Button) : Bool := !s.events.headD false

structure Debounced (s : Button) : Prop where
  armed : s.timer = true ↔ s.bstate ≠ .idle
  alternate : s.events.IsChain (· ≠ ·)
  settled : s.timer = false → s.pending = false → (reportedReleased s = true ↔ s.pin = true)

/-- The last timer expires with the button up, or with a new interrupt on its way. -/
def Allowed (s : Button) : Action → Prop
  | .level => True
  | .irq => True
  | .expiry => s.bstate = .released → s.pin = true ∨ s.pending = true

instance (s : Button) : (a : Action) → Decidable (Allowed s a)
  | .level => inferInstanceAs (Decidable True)
  | .irq => inferInstanceAs (Decidable True)
  | .expiry => inferInstanceAs (Decidable (s.bstate = .released → s.pin = true ∨ s.pending = true))

def Expects (s : Button) : Prop :=
  match s.bstate with
  | .idle => s.events.head? ≠ some true
  | .pressed => s.events.head? = some true
  | .hold => s.events.head? ≠ some false
  | .released => s.events.head? = some false

structure Machine (s : Button) : Prop where
  armed : s.timer = true ↔ s.bstate ≠ .idle
  alternate : s.events.IsChain (· ≠ ·)
  expects : Expects s

structure Inv (s : Button) : Prop extends Machine s where
  up : s.bstate = .idle → s.pin = true ∨ s.pending = true

theorem probe_inv (pin : Bool) : Inv (probe pin) := by
  cases pin
  · exact ⟨⟨by decide,.nil,by simp [Expects, probe]⟩,by decide⟩
  · exact ⟨⟨by decide,.nil,by simp [Expects, probe]⟩,by decide⟩

theorem alternate_report {s : Button} {value : Bool} (chain : s.events.IsChain (· ≠ ·))
    (fresh : s.events.head? ≠ some value) : (value :: s.events).IsChain (· ≠ ·) := by
  cases events : s.events with
  | nil => exact .singleton value
  | cons last rest =>
    rw [events] at chain fresh
    refine .cons_cons ?_ chain
    intro same
    exact fresh (by rw [same]; rfl)

theorem buttonIrq_machine {s : Button} (machine : Machine s) : Machine (buttonIrq s) := by
  unfold buttonIrq
  split
  · rename_i idle
    have expects := machine.expects
    rw [Expects, idle] at expects
    exact ⟨by simp [inputReportKey, modTimer],alternate_report machine.alternate expects,rfl⟩
  · exact machine

theorem buttonTimerCallback_machine {s : Button} (machine : Machine s) (armed : s.timer = true) :
    Machine (buttonTimerCallback { s with timer := false }) := by
  obtain ⟨timer,alternate,expects⟩ := machine
  have busy := timer.mp armed
  unfold Expects at expects
  cases state : s.bstate with
  | idle => contradiction
  | pressed =>
    rw [state] at expects
    refine ⟨?_,?_,?_⟩
    all_goals simp [buttonTimerCallback, nextState, modTimer, Expects, alternate, expects]
  | hold =>
    rw [state] at expects
    cases s.pin
    · refine ⟨?_,?_,?_⟩
      all_goals simp [buttonTimerCallback, nextState, modTimer, Expects, alternate, expects]
    · have told := alternate_report alternate expects
      refine ⟨?_,?_,?_⟩
      all_goals simp [buttonTimerCallback, nextState, modTimer, inputReportKey, Expects, told]
  | released =>
    rw [state] at expects
    refine ⟨?_,?_,?_⟩
    all_goals simp [buttonTimerCallback, nextState, Expects, alternate, expects]

theorem step_machine (s : Button) (a : Action) (t : Button) (machine : Machine s)
    (next : step s a = some t) : Machine t := by
  cases a with
  | level =>
    cases Option.some.inj next
    exact ⟨machine.armed,machine.alternate,machine.expects⟩
  | irq =>
    rw [step] at next
    split at next
    · cases Option.some.inj next
      exact buttonIrq_machine ⟨machine.armed,machine.alternate,machine.expects⟩
    · contradiction
  | expiry =>
    rw [step] at next
    split at next
    · rename_i armed
      cases Option.some.inj next
      exact buttonTimerCallback_machine machine armed
    · contradiction

/-- Going idle is the only way to lose track of the pin. -/
theorem step_up {s t : Button} {a : Action} (inv : Inv s) (allowed : Allowed s a)
    (next : step s a = some t) (idle : t.bstate = .idle) : t.pin = true ∨ t.pending = true := by
  cases a with
  | level =>
    cases Option.some.inj next
    cases pin : s.pin
    · exact .inl rfl
    · exact .inr (Bool.or_true _)
  | irq =>
    rw [step] at next
    split at next
    · cases Option.some.inj next
      unfold buttonIrq at idle ⊢
      split at idle
      · contradiction
      · contradiction
    · contradiction
  | expiry =>
    rw [step] at next
    split at next
    · rename_i armed
      cases Option.some.inj next
      have busy := inv.armed.mp armed
      cases state : s.bstate with
      | idle => contradiction
      | pressed => simp [buttonTimerCallback, nextState, modTimer, state] at idle
      | hold =>
        cases pin : s.pin
        · simp [buttonTimerCallback, nextState, modTimer, state, pin] at idle
        · simp [buttonTimerCallback, nextState, modTimer, inputReportKey, state, pin] at idle
      | released =>
        have kept := allowed state
        simpa [buttonTimerCallback, nextState, state] using kept
    · contradiction

theorem step_inv (s : Button) (a : Action) (t : Button) (inv : Inv s) (allowed : Allowed s a)
    (next : step s a = some t) : Inv t :=
  ⟨step_machine s a t inv.toMachine next,step_up inv allowed next⟩

theorem Machine.idle_released {s : Button} (machine : Machine s) (idle : s.bstate = .idle) :
    reportedReleased s = true := by
  have expects := machine.expects
  rw [Expects, idle] at expects
  unfold reportedReleased
  cases events : s.events with
  | nil => rfl
  | cons last rest =>
    rw [events] at expects
    cases last
    · rfl
    · exact absurd rfl expects

theorem inv_debounced (s : Button) (inv : Inv s) : Debounced s := by
  refine ⟨inv.armed,inv.alternate,?_⟩
  intro unarmed quiet
  have idle : s.bstate = .idle := by
    by_contra busy
    have armed := inv.armed.mpr busy
    rw [unarmed] at armed
    contradiction
  have up : s.pin = true := by
    rcases inv.up idle with up | pending
    · exact up
    · rw [quiet] at pending
      contradiction
  exact ⟨fun _ => up,fun _ => inv.idle_released idle⟩

theorem step_needs (s : Button) (a : Action) (t : Button) (inv : Inv s)
    (next : step s a = some t) (good : Debounced t) : Allowed s a := by
  cases a with
  | level => trivial
  | irq => trivial
  | expiry =>
    intro state
    have machine := step_machine s .expiry t inv.toMachine next
    have armed : s.timer = true := inv.armed.mpr (by simp [state])
    have idle : t = { s with timer := false, bstate := .idle } := by
      simp [step, armed, buttonTimerCallback, nextState, state] at next
      exact next.symm
    subst idle
    cases quiet : s.pending
    · exact .inl ((good.settled rfl quiet).mp (machine.idle_released rfl))
    · exact .inr rfl

/-- In every run the timer is armed outside BUTTON_IDLE and the events alternate; the
    button is never lost exactly when BUTTON_RELEASED always times out with the pin
    released or an interrupt pending. -/
theorem debounced_throughout_iff {pin : Bool} {visited : List (Button × Action)} {t : Button}
    (run : Run step (probe pin) visited t) :
    Throughout Machine visited t ∧ (Throughout Debounced visited t ↔ Every Allowed visited) :=
  ⟨run.invariant (probe_inv pin).toMachine step_machine,
    run.throughout_iff (probe_inv pin) inv_debounced step_inv step_needs⟩

def doublePress : List Action :=
  [.level, .irq, .expiry, .level, .expiry, .level, .irq, .expiry]

theorem double_press_lost : ∃ visited t, Run step (probe true) visited t ∧
    t.timer = false ∧ t.pending = false ∧ reportedReleased t = true ∧ t.pin = false ∧
    ¬ Debounced t := by
  refine ⟨_,_,run_follow doublePress rfl,rfl,rfl,rfl,rfl,?_⟩
  intro good
  exact absurd (good.settled rfl rfl) (by decide)

theorem slow_press_seen : ∃ visited t, Run step (probe true) visited t ∧
    t.events = [true, false, true] ∧ Throughout Debounced visited t := by
  have run : Run step (probe true) _ _ := run_follow
    [.level, .irq, .expiry, .level, .expiry, .expiry, .level, .irq] rfl
  refine ⟨_,_,run,rfl,?_⟩
  apply (debounced_throughout_iff run).2.mpr
  unfold Every
  decide

end BabyButtons
