import SqueezeOS.StepRuns

/- The interrupt line of the MSP430 driver, as power-off.patch and msp430-init-seq.patch
   leave it: the interrupt handler, the work handler and a completed firmware upgrade
   disable and enable the line, and i2c_failures ties them together. -/
namespace Msp430Irq
open StepRuns

/-- `depth` is the disable depth of the line, `pending` the scheduled work item.
    `lockedOut` and `unbalanced` are not in the driver: they record that the work
    handler gave up on the line, and that enable_irq was called at depth 0. -/
structure Msp430 where
  failures : Nat
  depth : Nat
  pending : Bool
  lockedOut : Bool
  unbalanced : Bool
  deriving DecidableEq, Repr

/-- The data come from kzalloc and request_irq leaves the line enabled. -/
def probe : Msp430 :=
  { failures := 0, depth := 0, pending := false, lockedOut := false, unbalanced := false }

def enableIrq (s : Msp430) : Msp430 :=
  if s.depth = 0 then { s with unbalanced := true } else { s with depth := s.depth - 1 }

def disableIrq (s : Msp430) : Msp430 := { s with depth := s.depth + 1 }

def scheduleWork (s : Msp430) : Msp430 := { s with pending := true }

def msp430I2cIrq (s : Msp430) : Msp430 := disableIrq (scheduleWork s)

def msp430I2cWork (flags : Int) (s : Msp430) : Msp430 :=
  if flags = 0 ∨ flags = -1 then
    if s.failures ≥ 3 then { s with failures := s.failures + 1, lockedOut := true }
    else enableIrq { s with failures := s.failures + 1 }
  else enableIrq { s with failures := 0 }

/-- The end of an upgrade that completes: "turn on irq if msp430 was locked out". -/
def upgradeComplete (s : Msp430) : Msp430 :=
  if s.failures ≥ 3 then enableIrq { s with lockedOut := false } else s

inductive Action where
  | irq
  | work (flags : Int)
  | upgrade
  deriving DecidableEq, Repr

def step (s : Msp430) : Action → Option Msp430
  | .irq => if s.depth = 0 then some (msp430I2cIrq s) else none
  | .work flags =>
      if s.pending then some (msp430I2cWork flags { s with pending := false }) else none
  | .upgrade => some (upgradeComplete s)

/-- The line is disabled once while work is pending or the driver gave up on it, not at
    all otherwise, and no enable_irq went unmatched. -/
def Balanced (s : Msp430) : Prop :=
  s.depth = (if s.pending ∨ s.lockedOut then 1 else 0) ∧ s.unbalanced = false

def Allowed (s : Msp430) : Action → Prop
  | .irq => True
  | .work _ => True
  | .upgrade => s.failures < 3 ∨ s.depth = 1 ∧ s.pending = false

instance (s : Msp430) : (a : Action) → Decidable (Allowed s a)
  | .irq => inferInstanceAs (Decidable True)
  | .work _ => inferInstanceAs (Decidable True)
  | .upgrade => inferInstanceAs (Decidable (s.failures < 3 ∨ s.depth = 1 ∧ s.pending = false))

structure Inv (s : Msp430) : Prop where
  balanced : Balanced s
  apart : s.lockedOut = true → s.pending = false

theorem probe_inv : Inv probe := ⟨⟨rfl,rfl⟩,fun _ => rfl⟩

theorem enableIrq_inv {s : Msp430} (depth : s.depth = 1) (pending : s.pending = false)
    (lockedOut : s.lockedOut = false) (unbalanced : s.unbalanced = false) :
    Inv (enableIrq s) := by
  have enabled : enableIrq s = { s with depth := 0 } := by
    simp [enableIrq, depth]
  rw [enabled]
  exact ⟨⟨by simp [pending, lockedOut],unbalanced⟩,fun _ => pending⟩

theorem irq_inv {s : Msp430} (inv : Inv s) (enabled : s.depth = 0) : Inv (msp430I2cIrq s) := by
  obtain ⟨⟨depth,unbalanced⟩,_⟩ := inv
  rw [enabled] at depth
  have lockedOut : s.lockedOut = false := by
    cases locked : s.lockedOut
    · rfl
    · simp [locked] at depth
  refine ⟨⟨?_,unbalanced⟩,?_⟩
  · simp [msp430I2cIrq, disableIrq, scheduleWork, enabled]
  · intro locked
    simp [msp430I2cIrq, disableIrq, scheduleWork, lockedOut] at locked

theorem work_inv {s : Msp430} (inv : Inv s) (pending : s.pending = true) (flags : Int) :
    Inv (msp430I2cWork flags { s with pending := false }) := by
  obtain ⟨⟨depth,unbalanced⟩,apart⟩ := inv
  have lockedOut : s.lockedOut = false := by
    cases locked : s.lockedOut
    · rfl
    · have := apart locked
      simp [pending] at this
  rw [if_pos (.inl pending)] at depth
  unfold msp430I2cWork
  split
  · split
    · exact ⟨⟨by simp [depth],unbalanced⟩,fun _ => rfl⟩
    · exact enableIrq_inv depth rfl lockedOut unbalanced
  · exact enableIrq_inv depth rfl lockedOut unbalanced

theorem upgrade_inv {s : Msp430} (inv : Inv s) (allowed : Allowed s .upgrade) :
    Inv (upgradeComplete s) := by
  unfold upgradeComplete
  split
  · rename_i failed
    rcases allowed with few | ⟨depth,pending⟩
    · omega
    · exact enableIrq_inv depth pending rfl inv.balanced.2
  · exact inv

theorem step_inv (s : Msp430) (a : Action) (t : Msp430) (inv : Inv s) (allowed : Allowed s a)
    (next : step s a = some t) : Inv t := by
  cases a with
  | irq =>
    rw [step] at next
    split at next
    · rename_i enabled
      cases Option.some.inj next
      exact irq_inv inv enabled
    · contradiction
  | work flags =>
    rw [step] at next
    split at next
    · rename_i pending
      cases Option.some.inj next
      exact work_inv inv pending flags
    · contradiction
  | upgrade =>
    cases Option.some.inj next
    exact upgrade_inv inv allowed

theorem upgrade_needs {s : Msp430} (inv : Inv s) (good : Balanced (upgradeComplete s)) :
    Allowed s .upgrade := by
  obtain ⟨⟨depth,unbalanced⟩,apart⟩ := inv
  by_cases few : s.failures < 3
  · exact .inl few
  · right
    have failed : s.failures ≥ 3 := by omega
    rw [upgradeComplete, if_pos failed] at good
    cases pending : s.pending
    · cases locked : s.lockedOut
      · have enabled : s.depth = 0 := by simpa [pending, locked] using depth
        have unmatched := good.2
        simp [enableIrq, enabled] at unmatched
      · have disabled : s.depth = 1 := by simpa [locked] using depth
        exact ⟨disabled,rfl⟩
    · have disabled : s.depth = 1 := by simpa [pending] using depth
      have early := good.1
      simp [enableIrq, disabled, pending] at early

theorem step_needs (s : Msp430) (a : Action) (t : Msp430) (inv : Inv s)
    (next : step s a = some t) (good : Balanced t) : Allowed s a := by
  cases a with
  | irq => trivial
  | work flags => trivial
  | upgrade =>
    cases Option.some.inj next
    exact upgrade_needs inv good

/-- The line is balanced throughout a run exactly when every upgrade in it completes
    before the third failure in a row or on a line that was locked out. -/
theorem balanced_throughout_iff {visited : List (Msp430 × Action)} {t : Msp430}
    (run : Run step probe visited t) :
    Throughout Balanced visited t ↔ Every Allowed visited :=
  run.throughout_iff probe_inv (fun _ inv => inv.balanced) step_inv step_needs

/-- Three failed reads and an upgrade: enable_irq is called on an enabled line. -/
theorem upgrade_after_three_failures :
    ∃ visited t, Run step probe visited t ∧ t.unbalanced = true ∧ ¬ Balanced t := by
  refine ⟨_,_,run_follow [.irq, .work (-1), .irq, .work (-1), .irq, .work (-1), .upgrade] rfl,
    rfl,?_⟩
  intro balanced
  exact absurd balanced.2 (by decide)

theorem upgrade_after_lock_out : ∃ visited t, Run step probe visited t ∧
    (∃ s, (s, Action.upgrade) ∈ visited ∧ s.lockedOut = true) ∧ Throughout Balanced visited t := by
  have run : Run step probe _ _ := run_follow [.irq, .work (-1), .irq, .work (-1), .irq,
    .work (-1), .irq, .work (-1), .upgrade] rfl
  refine ⟨_,_,run,⟨{ probe with failures := 4, depth := 1, lockedOut := true },by decide,rfl⟩,?_⟩
  apply (balanced_throughout_iff run).mpr
  unfold Every
  decide

end Msp430Irq
