import SqueezeOS.StepRuns

/- The line-in jack: an interrupt on one edge, a timer that debounces it, and a callback that
   samples the pin and turns the edge around. -/
namespace LineIn
open StepRuns

/-- Where linein_timer_callback is, with the value it has read. -/
inductive Callback where
  | idle
  | entered
  | sampled (val : Bool)
  | typed (val : Bool)
  | enabled (val : Bool)
  deriving DecidableEq, Repr

/-- The line latches falling edges if `falling` is set, and rising ones otherwise;
    `lineinSwitch` says that the control is there to be notified. -/
structure Line where
  pin : Bool
  falling : Bool
  latched : Bool
  depth : Nat
  armed : Bool
  callback : Callback
  lineinVal : Bool
  lineinSwitch : Bool
  deriving DecidableEq, Repr

inductive Event where
  | change
  | deliver
  | expire
  | statement
  deriving DecidableEq, Repr

def probed (pin lineinSwitch : Bool) : Line :=
  { pin := pin, falling := pin, latched := false, depth := 0, armed := false, callback := .idle
    lineinVal := pin, lineinSwitch := lineinSwitch }

def disableIrq (s : Line) : Line := { s with depth := s.depth + 1 }

def enableIrq (s : Line) : Line := { s with depth := s.depth - 1 }

def setIrqType (falling : Bool) (s : Line) : Line := { s with falling := falling }

def lineinHandler (s : Line) : Line := { disableIrq s with armed := true }

def lineinTimerCallback (s : Line) : Option Line :=
  match s.callback with
  | .idle => none
  | .entered => some { s with callback := .sampled s.pin }
  | .sampled val =>
    some { (if val then setIrqType true s else setIrqType false s) with callback := .typed val }
  | .typed val => some { enableIrq s with callback := .enabled val }
  | .enabled val =>
    if s.lineinSwitch && s.lineinVal != val then some { s with lineinVal := val, callback := .idle }
    else some { s with callback := .idle }

def step (s : Line) : Event → Option Line
  | .change => some { s with pin := !s.pin, latched := s.latched || s.pin == s.falling }
  | .deliver =>
    if s.latched && s.depth == 0 then some (lineinHandler { s with latched := false }) else none
  | .expire =>
    if s.armed && s.callback == .idle then some { s with armed := false, callback := .entered }
    else none
  | .statement => lineinTimerCallback s

def Settled (s : Line) : Prop :=
  s.armed = false ∧ s.callback = .idle ∧ s.latched = false

def Good (s : Line) : Prop :=
  s.depth ≤ 1 ∧ (Settled s → s.lineinVal = s.pin)

/-- The edge is turned around while the pin is still at the value that was read, or with
    another edge waiting; the control is there when a change is to be notified. -/
def Allowed (s : Line) : Event → Prop
  | .statement => match s.callback with
    | .sampled val => s.pin = val ∨ s.latched = true
    | .enabled val => s.lineinSwitch = true ∨ s.lineinVal = val
    | _ => True
  | _ => True

structure Waits (val : Bool) (s : Line) : Prop where
  quiet : s.armed = false
  edge : s.falling = val
  seen : s.latched = true ∨ s.pin = val

def Inv (s : Line) : Prop :=
  match s.callback with
  | .idle => (s.armed = true ∧ s.depth = 1) ∨ (s.depth = 0 ∧ Waits s.lineinVal s)
  | .entered => s.armed = false ∧ s.depth = 1
  | .sampled _ => s.armed = false ∧ s.depth = 1
  | .typed val => s.depth = 1 ∧ Waits val s
  | .enabled val => (s.armed = true ∧ s.depth = 1) ∨ (s.depth = 0 ∧ Waits val s)

theorem probed_inv (pin lineinSwitch : Bool) : Inv (probed pin lineinSwitch) :=
  .inr ⟨rfl,rfl,rfl,.inr rfl⟩

theorem inv_good (s : Line) (inv : Inv s) : Good s := by
  unfold Inv at inv
  refine ⟨?_,?_⟩
  · split at inv <;> omega
  · rintro ⟨armed,idle,latched⟩
    simp only [idle, armed, Bool.false_eq_true, false_and, false_or] at inv
    simpa [latched, eq_comm] using inv.2.seen

theorem Waits.change {val : Bool} {s : Line} (waits : Waits val s) :
    Waits val { s with pin := !s.pin, latched := s.latched || s.pin == s.falling } := by
  refine ⟨waits.quiet,waits.edge,?_⟩
  left
  rcases waits.seen with latched | pin
  · simp [latched]
  · simp [pin, waits.edge]

theorem change_inv {s : Line} (inv : Inv s) :
    Inv { s with pin := !s.pin, latched := s.latched || s.pin == s.falling } := by
  obtain ⟨pin,falling,latched,depth,armed,callback,lineinVal,lineinSwitch⟩ := s
  cases callback with
  | idle => exact inv.imp_right (And.imp_right Waits.change)
  | entered => exact inv
  | sampled val => exact inv
  | typed val => exact ⟨inv.1,inv.2.change⟩
  | enabled val => exact inv.imp_right (And.imp_right Waits.change)

theorem handler_inv {s : Line} (inv : Inv s) (enabled : s.depth = 0) :
    Inv (lineinHandler { s with latched := false }) := by
  have counted : (lineinHandler { s with latched := false }).depth = 1 := by
    simp [lineinHandler, disableIrq, enabled]
  obtain ⟨pin,falling,latched,depth,armed,callback,lineinVal,lineinSwitch⟩ := s
  cases callback with
  | idle => exact .inl ⟨rfl,counted⟩
  | entered => exact absurd (enabled.symm.trans inv.2) (by decide)
  | sampled val => exact absurd (enabled.symm.trans inv.2) (by decide)
  | typed val => exact absurd (enabled.symm.trans inv.1) (by decide)
  | enabled val => exact .inl ⟨rfl,counted⟩

theorem expire_inv {s : Line} (inv : Inv s) (armed : s.armed = true) (idle : s.callback = .idle) :
    Inv { s with armed := false, callback := .entered } := by
  unfold Inv at inv
  simp only [idle] at inv
  rcases inv with ⟨_,depth⟩ | ⟨_,waits⟩
  · exact ⟨rfl,depth⟩
  · exact absurd (armed.symm.trans waits.quiet) (by decide)

theorem statement_inv {s t : Line} (inv : Inv s) (allowed : Allowed s .statement)
    (next : lineinTimerCallback s = some t) : Inv t := by
  obtain ⟨pin,falling,latched,depth,armed,callback,lineinVal,lineinSwitch⟩ := s
  cases callback with
  | idle => simp [lineinTimerCallback] at next
  | entered =>
    cases Option.some.inj next
    exact inv
  | sampled val =>
    cases val
    all_goals
      cases Option.some.inj next
      exact ⟨inv.2,inv.1,rfl,allowed.symm⟩
  | typed val =>
    cases Option.some.inj next
    obtain ⟨once,waits⟩ := inv
    exact .inr ⟨congrArg (· - 1) once,waits.quiet,waits.edge,waits.seen⟩
  | enabled val =>
    have kept : lineinVal = val ∨ (lineinSwitch && lineinVal != val) = true := by
      rcases allowed with there | same
      · cases there
        cases lineinVal <;> cases val <;> simp
      · exact .inl same
    unfold lineinTimerCallback at next
    simp only at next
    split at next
    · cases Option.some.inj next
      exact inv.imp_right fun free => ⟨free.1,free.2.quiet,free.2.edge,free.2.seen⟩
    · rename_i unchanged
      cases Option.some.inj next
      cases kept.resolve_right unchanged
      exact inv.imp_right fun free => ⟨free.1,free.2.quiet,free.2.edge,free.2.seen⟩

theorem step_inv (s : Line) (e : Event) (t : Line) (inv : Inv s) (allowed : Allowed s e)
    (next : step s e = some t) : Inv t := by
  cases e with
  | change =>
    cases Option.some.inj next
    exact change_inv inv
  | deliver =>
    simp only [step, Option.ite_none_right_eq_some, Bool.and_eq_true, beq_iff_eq] at next
    obtain ⟨⟨_,enabled⟩,same⟩ := next
    cases Option.some.inj same
    exact handler_inv inv enabled
  | expire =>
    simp only [step, Option.ite_none_right_eq_some, Bool.and_eq_true, beq_iff_eq] at next
    obtain ⟨⟨armed,idle⟩,same⟩ := next
    cases Option.some.inj same
    exact expire_inv inv armed idle
  | statement => exact statement_inv inv allowed next

/-- Where the edge is always turned around in time, the line is disabled once at most, and the
    state that is reported is that of the jack whenever nothing is under way. -/
theorem good_throughout {pin lineinSwitch : Bool} {visited : List (Line × Event)} {t : Line}
    (run : Run step (probed pin lineinSwitch) visited t) (allowed : Every Allowed visited) :
    Throughout Good visited t := by
  obtain ⟨before,last⟩ := run.invariant_of_allowed (probed_inv pin lineinSwitch) step_inv allowed
  exact ⟨fun p member => inv_good _ (before p member),inv_good _ last⟩

instance (s : Line) : (e : Event) → Decidable (Allowed s e)
  | .change | .deliver | .expire => isTrue trivial
  | .statement => match place : s.callback with
    | .sampled val => decidable_of_iff (s.pin = val ∨ s.latched = true) (by simp [Allowed, place])
    | .enabled val =>
      decidable_of_iff (s.lineinSwitch = true ∨ s.lineinVal = val) (by simp [Allowed, place])
    | .idle | .entered | .typed _ => isTrue (by simp [Allowed, place])

instance (s : Line) : Decidable (Good s) :=
  inferInstanceAs (Decidable (s.depth ≤ 1 ∧
    (s.armed = false ∧ s.callback = .idle ∧ s.latched = false → s.lineinVal = s.pin)))

theorem bounce_in_time : ∃ visited t,
    Run step (probed false true) visited t ∧ Settled t ∧ t.lineinVal = false ∧
    Throughout Good visited t := by
  have run : Run step (probed false true) _ _ :=
    run_follow [.change, .deliver, .expire, .statement, .statement, .change, .statement, .deliver,
      .statement, .expire, .statement, .statement, .statement, .statement] rfl
  refine ⟨_,_,run,?_,?_,?_⟩
  · exact ⟨rfl,rfl,rfl⟩
  · rfl
  · apply good_throughout run
    unfold Every
    decide

/-- A plug that bounces between the sample and set_irq_type: its edge is lost. -/
theorem bounce_lost : ∃ visited t,
    Run step (probed false true) visited t ∧ ¬Throughout Good visited t := by
  have run : Run step (probed false true) _ _ :=
    run_follow [.change, .deliver, .expire, .statement, .change, .statement, .statement,
      .statement] rfl
  refine ⟨_,_,run,?_⟩
  rintro ⟨_,last⟩
  revert last
  decide

end LineIn
