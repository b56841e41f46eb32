import SqueezeOS.Jive.Wheel

/- When the scans of the wheel stop: jiffies is compared with a sum that may have wrapped. -/
namespace JiveWheel
open StepRuns

def halfSecond : Nat := 100

def lastAccepted (pins : Pins) (click : BitVec 32) (s : Wheel) : Option (BitVec 32) :=
  if turn (readAB pins <<< 2 ||| s.lastAB) = 0 then s.lastClick else some click

/-- With the button up for all of its history, the scans go on for half a second. -/
def InTime (s : Wheel) : Action → Prop
  | .irq => True
  | .scan pins click now =>
      nextButton pins s = 0 → ∀ j, lastAccepted pins click s = some j →
        (now - j).toNat < 2 ^ 31 →
        ((scanned pins click now s).timer = true ↔ (now - j).toNat < halfSecond)

def WrapsTogether (s : Wheel) : Action → Prop
  | .irq => True
  | .scan pins click now =>
      nextButton pins s = 0 → ∀ j, lastAccepted pins click s = some j →
        (now - j).toNat < 2 ^ 31 → (j ≤ now ↔ j.toNat + halfSecond < 2 ^ 32)

theorem before_sum_iff {j now : BitVec 32} (recent : (now - j).toNat < 2 ^ 31) :
    (now < j + hz / 2 ↔ (now - j).toNat < halfSecond) ↔
      (j ≤ now ↔ j.toNat + halfSecond < 2 ^ 32) := by
  have half : (hz / 2).toNat = 100 := by decide
  rw [BitVec.lt_def, BitVec.le_def, BitVec.toNat_add, half]
  rw [BitVec.toNat_sub] at recent ⊢
  unfold halfSecond
  omega

def Clicked (s : Wheel) : Prop := ∀ j, s.lastClick = some j → s.clickJiffies = j

section
variable {s t : Wheel} (pins : Pins) (click now : BitVec 32)

theorem rotate_clicked (clicked : Clicked s) :
    (rotate pins click s).lastClick = lastAccepted pins click s ∧
      Clicked (rotate pins click s) := by
  unfold rotate lastAccepted
  simp only [debounced_read]
  split
  · exact ⟨rfl,clicked⟩
  · exact ⟨rfl,fun _ same => Option.some.inj same⟩

theorem reportButton_clicks : (reportButton pins s).lastClick = s.lastClick ∧
    (reportButton pins s).clickJiffies = s.clickJiffies := by
  unfold reportButton
  dsimp only
  split <;> exact ⟨rfl,rfl⟩

theorem updateDetent_clicks : (updateDetent s).lastClick = s.lastClick ∧
    (updateDetent s).clickJiffies = s.clickJiffies := by
  unfold updateDetent
  dsimp only
  split <;> split <;> exact ⟨rfl,rfl⟩

theorem decode_clicks (clicked : Clicked s) :
    (decode pins click s).lastClick = lastAccepted pins click s ∧ Clicked (decode pins click s) := by
  obtain ⟨last,kept⟩ := rotate_clicked pins click clicked
  obtain ⟨same,jiffies⟩ := reportButton_clicks (s := rotate pins click s) pins
  obtain ⟨same',jiffies'⟩ := updateDetent_clicks (s := reportButton pins (rotate pins click s))
  refine ⟨same'.trans (same.trans last),?_⟩
  unfold Clicked decode
  rw [same', same, jiffies', jiffies]
  exact kept

theorem decode_button : (decode pins click s).lastButton = nextButton pins s := by
  obtain ⟨_,button,_,_⟩ := rotate_rest (s := s) pins click
  obtain ⟨_,_,new,_⟩ := reportButton_rest (s := rotate pins click s) pins
  obtain ⟨_,_,new',_⟩ := updateDetent_rest (s := reportButton pins (rotate pins click s))
  rw [decode, new', new, nextButton, button, nextButton]

theorem rearm_clicks : (rearm now s).lastClick = s.lastClick ∧
    (rearm now s).clickJiffies = s.clickJiffies := by
  unfold rearm
  split <;> exact ⟨rfl,rfl⟩

theorem rearm_timer (unarmed : s.timer = false) (up : s.lastButton = 0) :
    (rearm now s).timer = true ↔ now < s.clickJiffies + hz / 2 := by
  have released : ¬s.lastButton > 0 := by
    rw [up]
    decide
  unfold rearm
  simp only [released, or_false]
  split
  · simp_all
  · simp_all

theorem scanned_timer (clicked : Clicked s) {j : BitVec 32} (up : nextButton pins s = 0)
    (last : lastAccepted pins click s = some j) :
    (scanned pins click now s).timer = true ↔ now < j + hz / 2 := by
  obtain ⟨same,kept⟩ := decode_clicks (s := { s with timer := false }) pins click clicked
  have unarmed := decode_timer pins click (s := { s with timer := false })
  have button := decode_button (s := { s with timer := false }) pins click
  have jiffies := kept j (same.trans last)
  have stop := rearm_timer now unarmed (button.trans up)
  rw [jiffies] at stop
  exact stop

end

section
variable {s t : Wheel} {visited : List (Wheel × Action)}

theorem step_clicked (s : Wheel) (a : Action) (t : Wheel) (clicked : Clicked s)
    (next : step s a = some t) : Clicked t := by
  cases a with
  | irq =>
    cases Option.some.inj next
    exact clicked
  | scan pins click now =>
    cases Option.some.inj next
    obtain ⟨_,kept⟩ := decode_clicks (s := { s with timer := false }) pins click clicked
    obtain ⟨same,jiffies⟩ := rearm_clicks (s := decode pins click { s with timer := false }) now
    intro j last
    exact jiffies.trans (kept j (same.symm.trans last))

theorem inTime_iff (a : Action) (clicked : Clicked s) : InTime s a ↔ WrapsTogether s a := by
  cases a with
  | irq => exact Iff.rfl
  | scan pins click now =>
    refine forall_congr' fun up => forall_congr' fun j => forall_congr' fun last =>
      forall_congr' fun recent => ?_
    rw [scanned_timer pins click now clicked up last]
    exact before_sum_iff recent

/-- In a run every scan goes on for half a second, and no longer, exactly when the counter and
    the sum wrap together at each. -/
theorem wheel_stops_in_time (run : Run step wheelInit visited t) :
    Every InTime visited ↔ Every WrapsTogether visited := by
  have start : Clicked wheelInit := by
    intro j none
    contradiction
  exact run.every_iff start (fun s a t clicked _ next => step_clicked s a t clicked next)
    fun s a t clicked _ => inTime_iff a clicked

def oneStep (click : BitVec 32) : Wheel := scanned ⟨false,true,false⟩ click click wheelInit

def restAfter (click now : BitVec 32) : List (Wheel × Action) :=
  [(wheelInit, .scan ⟨false,true,false⟩ click click),
    (oneStep click, .scan ⟨false,true,false⟩ now now)]

theorem run_restAfter (click now : BitVec 32) : Run step wheelInit (restAfter click now)
    (scanned ⟨false,true,false⟩ now now (oneStep click)) :=
  .step rfl (.step rfl .done)

theorem fifty_ticks : Every InTime (restAfter 1000 1050) := by
  rw [wheel_stops_in_time (run_restAfter 1000 1050)]
  intro p member
  simp only [restAfter, List.mem_cons, List.not_mem_nil, or_false] at member
  rcases member with rfl | rfl
  all_goals
    intro up j last recent
    cases last
    decide

/-- The half second ends behind the wrap of jiffies, and the scans stop 10 ticks after the step. -/
theorem stops_early :
    Run step wheelInit (restAfter 0xFFFFFFCE 0xFFFFFFD8)
        (scanned ⟨false,true,false⟩ 0xFFFFFFD8 0xFFFFFFD8 (oneStep 0xFFFFFFCE)) ∧
      ¬Every InTime (restAfter 0xFFFFFFCE 0xFFFFFFD8) := by
  refine ⟨run_restAfter _ _,?_⟩
  intro all
  have later := all _ (List.mem_cons_of_mem _ List.mem_cons_self)
  have timer := later (by decide +kernel) 0xFFFFFFCE (by decide +kernel) (by decide)
  have armed := timer.mpr (by decide)
  exact absurd armed (by decide +kernel)

end

end JiveWheel
