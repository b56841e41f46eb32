import SqueezeOS.TapController

/- The chip's side of a two-wire test access port. Every cycle of the port is three slots of
   SBWTCK, for TMS, for TDI and for TDO, that share the line SBWTDIO. -/
namespace SpyBiWire
open Tap

inductive Wire where
  | tck (level : Bool)
  | tdio (level : Bool)
  | release
  | drive (level : Bool)
  deriving DecidableEq, Repr

inductive Slot where
  | tms
  | tdi
  | tdo
  deriving DecidableEq, Repr

/-- `levels` are those that the host gives the line from the beginning of the slot for TDI on: an
    idle port hands them on as TCLK. -/
structure Chip where
  tck : Bool
  line : Bool
  slot : Slot
  tms : Bool
  tdi : Bool
  levels : List Bool
  port : Port (List Bool)

def Chip.fall (d : Chip) : Chip :=
  match d.slot with
  | .tms => { d with tck := false, tms := d.line }
  | .tdi => { d with tck := false, tdi := d.line }
  | .tdo => { d with tck := false }

/-- The port is clocked at the end of the slot for TDI. -/
def Chip.rise (d : Chip) : Chip :=
  match d.slot with
  | .tms => { d with tck := true, slot := .tdi, levels := [d.line] }
  | .tdi => { d with tck := true, slot := .tdo, port := d.port.step ⟨d.tms,d.tdi,d.levels⟩ }
  | .tdo => { d with tck := true, slot := .tms }

def Chip.change (d : Chip) (level : Bool) : Chip :=
  if level = d.line then d
  else if d.slot = .tdi ∧ d.tck = true then { d with line := level, levels := d.levels ++ [level] }
  else { d with line := level }

def Chip.step (d : Chip) : Wire → Chip
  | .tck level => if level = d.tck then d else if level then d.rise else d.fall
  | .tdio level => d.change level
  | .release => d
  | .drive level => d.change level

def Chip.run (d : Chip) (wire : List Wire) : Chip := wire.foldl Chip.step d

theorem run_append (d : Chip) (first later : List Wire) :
    d.run (first ++ later) = (d.run first).run later := List.foldl_append

def line (levels : List Bool) : List Wire := levels.map .tdio

def follow (levels : List Bool) (level : Bool) : List Bool :=
  if some level = levels.getLast? then levels else levels ++ [level]

/-- A cycle up to where the chip is asked for TDO: TMS, the levels that the line is held at while
    SBWTCK is low behind it, and those in the slot for TDI with the one that is taken. -/
def asked (tms : Bool) (held levels : List Bool) (tdi : Bool) : List Wire :=
  [.tdio tms, .tck false] ++ line held ++ [.tck true] ++ line (levels ++ [tdi]) ++
    [.tck false, .tck true, .release, .tck false]

/-- A whole cycle; the host takes the line back at the level `back`. -/
def cycleWire (tms : Bool) (held levels : List Bool) (tdi back : Bool) : List Wire :=
  asked tms held levels tdi ++ [.tck true, .drive back]

def heard (tms : Bool) (held levels : List Bool) (tdi : Bool) : List Bool :=
  (levels ++ [tdi]).foldl follow [held.getLast?.getD tms]

structure Chip.Rests (d : Chip) : Prop where
  high : d.tck = true
  slot : d.slot = .tms

theorem change_rests {d : Chip} (rests : d.Rests) (level : Bool) :
    d.change level = { d with line := level } := by
  unfold Chip.change
  split
  · rename_i same
    rw [same]
  · rw [if_neg]
    simp [rests.slot]

theorem run_line (d : Chip) (levels : List Bool) (high : d.tck = true) (slot : d.slot = .tdi)
    (last : d.levels.getLast? = some d.line) :
    d.run (line levels) = { d with
      line := levels.getLast?.getD d.line
      levels := levels.foldl follow d.levels } := by
  induction levels generalizing d with
  | nil => rfl
  | cons level levels ih =>
    have one : d.step (.tdio level) =
        { d with line := level, levels := follow d.levels level } := by
      change d.change level = _
      unfold Chip.change follow
      rw [last]
      by_cases same : level = d.line
      · simp [same]
      · simp [same, high, slot]
    have next : (follow d.levels level).getLast? = some level := by
      unfold follow
      split
      · rename_i same
        exact same.symm
      · simp
    have rest := ih { d with line := level, levels := follow d.levels level } high slot next
    change (d.step (.tdio level)).run (line levels) = _
    rw [one, rest]
    simp [List.getLast?_cons]

theorem run_held (d : Chip) (held : List Bool) (slot : d.slot = .tms) :
    d.run (line held) = { d with line := held.getLast?.getD d.line } := by
  induction held generalizing d with
  | nil => rfl
  | cons level held ih =>
    have one : d.step (.tdio level) = { d with line := level } := by
      change d.change level = _
      unfold Chip.change
      split
      · rename_i same
        rw [same]
      · rw [if_neg]
        simp [slot]
    have rest := ih { d with line := level } slot
    change (d.step (.tdio level)).run (line held) = _
    rw [one, rest]
    simp [List.getLast?_cons]

theorem run_asked {d : Chip} (rests : d.Rests) (tms : Bool) (held levels : List Bool) (tdi : Bool) :
    d.run (asked tms held levels tdi) =
      ⟨false,tdi,.tdo,tms,tdi,heard tms held levels tdi,
        d.port.step ⟨tms,tdi,heard tms held levels tdi⟩⟩ := by
  have first : d.run [.tdio tms, .tck false] =
      ⟨false,tms,.tms,tms,d.tdi,d.levels,d.port⟩ := by
    change ((d.change tms).step (.tck false)) = _
    rw [change_rests rests]
    simp [Chip.step, rests.high, Chip.fall, rests.slot]
  have middle : Chip.run ⟨false,tms,.tms,tms,d.tdi,d.levels,d.port⟩ (line held ++ [.tck true]) =
      ⟨true,held.getLast?.getD tms,.tdi,tms,d.tdi,[held.getLast?.getD tms],d.port⟩ := by
    rw [run_append, run_held _ held rfl]
    simp [Chip.run, Chip.step, Chip.rise]
  have data : Chip.run ⟨true,held.getLast?.getD tms,.tdi,tms,d.tdi,[held.getLast?.getD tms],d.port⟩
      (line (levels ++ [tdi])) = ⟨true,tdi,.tdi,tms,d.tdi,heard tms held levels tdi,d.port⟩ := by
    rw [run_line _ _ rfl rfl (by simp)]
    simp [heard]
  have shape : asked tms held levels tdi = [.tdio tms, .tck false] ++ ((line held ++ [.tck true]) ++
      (line (levels ++ [tdi]) ++ [.tck false, .tck true, .release, .tck false])) := by
    simp [asked]
  rw [shape, run_append, run_append, run_append, first, middle, data]
  rfl

/-- In every cycle the port is clocked once, with the TMS and the TDI that the host means. -/
theorem run_cycle {d : Chip} (rests : d.Rests) (tms : Bool) (held levels : List Bool)
    (tdi back : Bool) :
    d.run (cycleWire tms held levels tdi back) =
      ⟨true,back,.tms,tms,tdi,heard tms held levels tdi,
        d.port.step ⟨tms,tdi,heard tms held levels tdi⟩⟩ := by
  rw [cycleWire, run_append, run_asked rests]
  change Chip.change _ back = _
  exact change_rests ⟨rfl,rfl⟩ back

end SpyBiWire
