import SqueezeOS.Fab4.Ir
import SqueezeOS.Fab4.Tsl2569

/- The attributes of both drivers of the Fab4, read and written in any order. -/
namespace Fab4Locks
open Guarded StepRuns

structure Drivers where
  sensor : Driver Tsl2569.Sensor
  controller : Driver Fab4Ir.Controller
  deriving DecidableEq, Repr

inductive Access where
  | sensor (a : Tsl2569.Access)
  | controller (a : Fab4Ir.Access)
  deriving DecidableEq, Repr

def probed (control : BitVec 8) (blaster : List UInt8) : Drivers :=
  { sensor := Tsl2569.initClient, controller := Fab4Ir.probe control blaster }

def step (s : Drivers) : Access → Option Drivers
  | .sensor a => (Tsl2569.access a s.sensor).map fun done => { s with sensor := done.2 }
  | .controller a => (Fab4Ir.access a s.controller).map fun done => { s with controller := done.2 }

def Free (s : Drivers) : Prop := s.sensor.locked = false ∧ s.controller.locked = false

def Unlocks (s : Drivers) : Access → Prop
  | .sensor a => Tsl2569.Unlocks s.sensor.data a
  | .controller a => Fab4Ir.Unlocks a

theorem step_frees {s : Drivers} (free : Free s) (a : Access) :
    ∃ t, step s a = some t ∧ (Free t ↔ Unlocks s a) := by
  obtain ⟨sensor,controller⟩ := free
  cases a with
  | sensor a =>
    obtain ⟨result,t,ran,frees⟩ := Tsl2569.access_frees sensor a
    refine ⟨{ s with sensor := t },?_,?_⟩
    · simp only [step, ran, Option.map_some]
    · exact (and_iff_left controller).trans frees
  | controller a =>
    obtain ⟨result,t,ran,frees⟩ := Fab4Ir.access_frees controller a
    refine ⟨{ s with controller := t },?_,?_⟩
    · simp only [step, ran, Option.map_some]
    · exact (and_iff_right sensor).trans frees

theorem step_free_iff {s t : Drivers} {a : Access} (free : Free s) (next : step s a = some t) :
    Free t ↔ Unlocks s a := by
  obtain ⟨u,ran,frees⟩ := step_frees free a
  rw [ran] at next
  cases Option.some.inj next
  exact frees

theorem free_iff_returns (s : Drivers) : Free s ↔ ∀ a, ∃ t, step s a = some t := by
  constructor
  · intro free a
    obtain ⟨t,ran,_⟩ := step_frees free a
    exact ⟨t,ran⟩
  · intro returns
    constructor
    · obtain ⟨t,ran⟩ := returns (.sensor .showGain)
      cases held : s.sensor.locked with
      | false => rfl
      | true => simp [step, Tsl2569.access, Tsl2569.showGain, showField, mutexLock, held] at ran
    · obtain ⟨t,ran⟩ := returns (.controller .showProximityControl)
      cases held : s.controller.locked with
      | false => rfl
      | true =>
        simp [step, Fab4Ir.access, Fab4Ir.showProximityControl, showField, mutexLock, held] at ran

/-- In every sequence of accesses both mutexes are free after each of them exactly when none
    takes an early return inside its critical section; and as long as they are free, and only
    then, no access blocks. -/
theorem released_throughout_iff (control : BitVec 8) (blaster : List UInt8)
    {visited : List (Drivers × Access)} {t : Drivers}
    (run : Run step (probed control blaster) visited t) :
    (Throughout Free visited t ↔ Every Unlocks visited) ∧
    (Free t ↔ ∀ a, ∃ u, step t a = some u) := by
  constructor
  · have start : Free (probed control blaster) := ⟨rfl,rfl⟩
    exact run.throughout_iff start (fun _ free => free)
      (fun s a t free unlocks next => (step_free_iff free next).mpr unlocks)
      (fun s a t free next frees => (step_free_iff free next).mp frees)
  · exact free_iff_returns t

/-- A read of adc whose first transfer fails returns with update_lock held, and a read of gain
    waits for it. -/
theorem adc_failure_blocks : ∃ visited t, Run step (probed 0 []) visited t ∧
    ¬ Throughout Free visited t ∧ step t (.sensor .showGain) = none := by
  refine ⟨_,_,run_follow [.sensor (.showAdc ⟨-5, 0, 0⟩ ⟨2, 0, 0⟩)] rfl,?_,rfl⟩
  intro free
  exact absurd free.2.1 (by decide)

theorem refused_and_ignored : ∃ visited t, Run step (probed 0 []) visited t ∧
    visited.length = 4 ∧ Throughout Free visited t ∧ ∀ a, ∃ u, step t a = some u := by
  have run : Run step (probed 0 []) _ _ := run_follow
    [.sensor (.storeGain [50] (-5)), .sensor (.storeIntegration [51] 0),
      .controller (.irBlaster [49] true true (-5)), .sensor (.storeIntegCycle [48] (-5))] rfl
  have free := (released_throughout_iff 0 [] run).1.mpr (by
    rintro p (_ | ⟨_,_ | ⟨_,_ | ⟨_,_ | ⟨_,none⟩⟩⟩⟩)
    · exact .inl (by decide)
    · exact .inr (by decide)
    · trivial
    · exact .inr ⟨rfl,.inl rfl⟩
    · cases none)
  exact ⟨_,_,run,rfl,free,(released_throughout_iff 0 [] run).2.mp free.2⟩

end Fab4Locks
