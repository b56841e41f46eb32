import SqueezeOS.Flac.AccessBounds
import SqueezeOS.Flac.FixedAsm
import SqueezeOS.Flac.LpcAsm
import SqueezeOS.Flac.LpcWide

/- The three restorers keep to the block that they are called for, whatever the residual, the
   coefficients and the memory hold, unless the block has no sample behind its warm-up. -/
namespace RestoreBounds
open Arm RestoreSignal FixedAsm LpcAsm LpcWide

/-- A call of a restorer. The decoder admits a block that is no longer than its warm-up, so that
    `len` may be zero. -/
structure Subframe where
  state : State
  order : Nat
  len : Nat
  data : Word
  small : len < 2 ^ 32
  count : state.reg .r1 = BitVec.ofNat 32 len

structure FixedSubframe extends Subframe where
  order_small : order ≤ 4
  r2 : state.reg .r2 = BitVec.ofNat 32 order
  r3 : state.reg .r3 = data

structure LpcSubframe extends Subframe where
  order_positive : 1 ≤ order
  order_small : order ≤ 32
  r3 : state.reg .r3 = BitVec.ofNat 32 order
  pointer : state.mem (addr (state.reg .r13) 1) = data

def FixedSubframe.block (f : FixedSubframe) : Block where
  residual := f.state.reg .r0
  coeff := 0
  data := f.data
  sp := f.state.reg .r13
  order := f.order
  taps := 0
  len := f.len
  small := f.small

def LpcSubframe.block (f : LpcSubframe) : Block where
  residual := f.state.reg .r0
  coeff := f.state.reg .r2
  data := f.data
  sp := f.state.reg .r13
  order := f.order
  taps := f.order
  len := f.len
  small := f.small

def fixedRegs : List (Reg × Value Base) :=
  [(.r0, .point .residual 0), (.r1, .point .count 0), (.r3, .point .data 0), (.r13, .point .frame 0)]

def fixedHeads : Nat → List (Head FixedLabel)
  | 0 => [⟨(.order0a, 0), [(.order0, 2)], fixedRegs, 0⟩, ⟨(.order0b, 0), [(.order0a, 6)], fixedRegs, 4⟩]
  | 1 => [⟨(.order1a, 0), [(.order1, 3)], fixedRegs, 0⟩, ⟨(.order1b, 0), [(.order1a, 7)], fixedRegs, 3⟩]
  | 2 => [⟨(.order2a, 0), [(.order2, 3)], fixedRegs, 0⟩, ⟨(.order2b, 0), [(.order2a, 10)], fixedRegs, 3⟩]
  | 3 => [⟨(.order3a, 0), [(.order3, 3)], fixedRegs, 0⟩, ⟨(.order3b, 0), [(.order3a, 11)], fixedRegs, 3⟩]
  | 4 => [⟨(.order4a, 0), [(.order4, 3)], fixedRegs, 0⟩, ⟨(.order4b, 0), [(.order4a, 12)], fixedRegs, 3⟩]
  | _ => []

def fixedLoops (order : Nat) : Loops FixedLabel where
  program := fixedProgram
  heads := fixedHeads order
  order := order
  taps := 0

def fixedStart (order : Nat) : List (Reg × Value Base) :=
  [(.r0, .point .residual 0), (.r1, .point .count 0), (.r2, .number order), (.r3, .point .data 0),
   (.r13, .point .frame 40)]

def shortRegs (data : Int) : List (Reg × Value Base) :=
  [(.r0, .point .residual 0), (.r1, .point .count 0), (.r13, .point .frame 0), (.r14, .point .data data)]

def longRegs (coeff data : Int) : List (Reg × Value Base) :=
  (.r2, .point .coeff coeff) :: shortRegs data

/-- One loop for each of the orders up to twelve, and the Duff's device for the others. -/
def lpcHead : Nat → Head Label
  | 1 => ⟨(.order1a, 0), [(.order1, 2)], shortRegs 0, 0⟩
  | 2 => ⟨(.order2a, 0), [(.order2, 2)], shortRegs 0, 0⟩
  | 3 => ⟨(.order3a, 0), [(.order3, 1)], shortRegs 0, 0⟩
  | 4 => ⟨(.order4a, 0), [(.order4, 1)], shortRegs 0, 0⟩
  | 5 => ⟨(.order5a, 0), [(.order5, 2)], shortRegs (-4), 0⟩
  | 6 => ⟨(.order6a, 0), [(.order6, 2)], shortRegs (-12), 0⟩
  | 7 => ⟨(.order7a, 0), [(.order7, 2)], longRegs 16 (-16), 0⟩
  | 8 => ⟨(.order8a, 0), [(.order8, 2)], longRegs 16 (-16), 0⟩
  | 9 => ⟨(.order9a, 0), [(.order9, 2)], longRegs 16 (-16), 0⟩
  | 10 => ⟨(.order10a, 0), [(.order10, 2)], longRegs 16 (-16), 0⟩
  | 11 => ⟨(.order11a, 0), [(.order11, 2)], longRegs 16 (-16), 0⟩
  | 12 => ⟨(.order12a, 0), [(.order12, 2)], longRegs 16 (-16), 0⟩
  | n => ⟨(.duffsDeviceOuter, 0), [(.genericRestoreSignal, 3)],
      (.r3, .number n) :: (.r8, .number ((n + 7) / 8)) :: longRegs (4 * n) 0, 0⟩

def lpcLoops (order : Nat) : Loops Label where
  program := program
  heads := [lpcHead order]
  order := order
  taps := order

def lpcStart (order : Nat) : List (Reg × Value Base) := (.r3, .number order) :: longRegs 0 0

def wideHead (order : Nat) : Head WideLabel where
  spot := (.wideDuffsDeviceOuter, 0)
  others := []
  regs := [(.r0, .point .residual 0), (.r1, .point .count 0), (.r3, .number order),
    (.r5, .point .coeff (4 * order)), (.r8, .point .data 0), (.r13, .point .frame 0)]
  bits := 0

def wideLoops (order : Nat) : Loops WideLabel where
  program := wideProgram
  heads := [wideHead order]
  order := order
  taps := order

def turnsOk {L : Type} [DecidableEq L] (loops : Loops L) : Bool :=
  loops.heads.all fun h => allLeaves (loops.turnOk h) (loops.follow h.spot h.regs)

theorem fixed_turnsOk : ∀ order ≤ 4, turnsOk (fixedLoops order) = true := by decide +kernel

theorem fixed_entryOk : ∀ order ≤ 4, allLeaves (fixedLoops order).entryOk
    ((fixedLoops order).follow (.fixedRestoreSignalAsmArm, 0) (fixedStart order)) = true := by
  decide +kernel

theorem lpc_turnsOk : ∀ order ≤ 32, 1 ≤ order → turnsOk (lpcLoops order) = true := by decide +kernel

theorem lpc_entryOk : ∀ order ≤ 32, 1 ≤ order → allLeaves (lpcLoops order).entryOk
    ((lpcLoops order).follow (.lpcRestoreSignalAsmArm, 3) (lpcStart order)) = true := by
  decide +kernel

theorem wide_turnsOk : ∀ order ≤ 32, 1 ≤ order → turnsOk (wideLoops order) = true := by
  decide +kernel

theorem turnsOk_each {L : Type} [DecidableEq L] {loops : Loops L} (ok : turnsOk loops = true) :
    ∀ h ∈ loops.heads, allLeaves (loops.turnOk h) (loops.follow h.spot h.regs) = true := by
  intro h member
  exact List.all_eq_true.mp ok h member

theorem fixed_same (order : Nat) : ∀ h ∈ fixedHeads order, ∀ spot ∈ h.others,
    (fixedLoops order).code spot = (fixedLoops order).code h.spot := by
  intro h member spot other
  unfold fixedHeads at member
  split at member
  case h_6 => contradiction
  all_goals
    rcases List.mem_pair.mp member with rfl | rfl
    all_goals
      cases List.mem_singleton.mp other
      rfl

theorem lpc_same (order : Nat) : ∀ spot ∈ (lpcHead order).others,
    (lpcLoops order).code spot = (lpcLoops order).code (lpcHead order).spot := by
  intro spot other
  unfold lpcHead at other ⊢
  split at other
  all_goals
    cases List.mem_singleton.mp other
    rfl

theorem fixed_checked {order : Nat} (small : order ≤ 4) : (fixedLoops order).Checked :=
  ⟨turnsOk_each (fixed_turnsOk order small),fixed_same order⟩

theorem lpc_checked {order : Nat} (positive : 1 ≤ order) (small : order ≤ 32) :
    (lpcLoops order).Checked := by
  refine ⟨turnsOk_each (lpc_turnsOk order small positive),?_⟩
  intro h member
  cases List.mem_singleton.mp member
  exact lpc_same order

theorem wide_checked {order : Nat} (positive : 1 ≤ order) (small : order ≤ 32) :
    (wideLoops order).Checked := by
  refine ⟨turnsOk_each (wide_turnsOk order small positive),?_⟩
  intro h member
  cases List.mem_singleton.mp member
  simp [wideHead]

theorem holds_base {ρ : Base → Word} {b : Base} {w : Word} (same : w = ρ b) :
    (.point b 0 : Value Base).Holds ρ w := by
  rw [holds_point, same]
  simp

theorem FixedSubframe.start (f : FixedSubframe) :
    (symbols (fixedStart f.order)).Holds (f.block.values 0) f.state := by
  have stack : f.state.reg .r13 = below (f.state.reg .r13) 10 + BitVec.ofInt 32 40 := by
    rw [below_eq, BitVec.add_assoc, ← BitVec.ofInt_add]
    simp
  apply symbols_hold
  simp only [fixedStart, List.forall_mem_cons]
  refine ⟨holds_base ?_,holds_base f.count,f.r2,holds_base ?_,stack,by simp⟩
  · exact (addr_zero _).symm
  · exact f.r3.trans (addr_zero _).symm

theorem fixed_inside_iff (f : FixedSubframe) :
    Inside fixedProgram f.block.Allows
      (.running (Program.after .fixedRestoreSignalAsmArm fixedProgram) f.state) ↔ 0 < f.len :=
  entry_inside_iff (fixed_checked f.order_small) rfl rfl (fixed_entryOk f.order f.order_small) f.start

namespace LpcSubframe
variable (f : LpcSubframe)

def fp : Word := below (f.state.reg .r13) 10

def saved : State :=
  { f.state with mem := storeRegs f.state.reg f.fp 0 pushed f.state.mem }.set .r13 f.fp

theorem saved_pointer : f.saved.mem (addr f.fp 11) = f.data := by
  have above : addr f.fp 11 = addr (f.state.reg .r13) 1 := addr_below _ (by decide)
  rw [← f.pointer, ← above]
  apply storeRegs_frame
  intro n less same
  have : n < 10 := less
  have := addr_injective _ (by decide) (by omega) same
  omega

theorem saved_allowed : ∀ a ∈ transfers true .r13 f.fp 10 ++
    [⟨false, .r13, addr f.fp 10⟩, ⟨false, .r13, addr f.fp 11⟩], f.block.Allows a := by
  intro a member
  rcases List.mem_append.mp member with pushes | loads
  · obtain ⟨k,less,rfl⟩ := List.mem_map.mp pushes
    have := List.mem_range.mp less
    exact ⟨k,by omega,rfl,fun _ => this⟩
  · rcases List.mem_pair.mp loads with rfl | rfl
    · exact ⟨10,by decide,rfl,by simp⟩
    · exact ⟨11,by decide,rfl,by simp⟩

theorem lpc_prologue : ∃ t, Trace program
    (.running (Program.after .lpcRestoreSignalAsmArm program) f.state)
    (transfers true .r13 f.fp 10 ++ [⟨false, .r13, addr f.fp 10⟩, ⟨false, .r13, addr f.fp 11⟩])
    (.running ((lpcLoops f.order).code (.lpcRestoreSignalAsmArm, 3)) t) ∧
    (symbols (lpcStart f.order)).Holds (f.block.values 0) t := by
  refine ⟨(f.saved.set .r5 (f.saved.mem (addr f.fp 10))).set .r14 (f.saved.mem (addr f.fp 11)),
    .step (.next rfl) (.step (.next rfl) (.step (.next rfl) .done)),symbols_hold ?_⟩
  rw [f.saved_pointer]
  simp only [lpcStart, longRegs, shortRegs, List.forall_mem_cons]
  refine ⟨f.r3,holds_base rfl,holds_base ?_,holds_base f.count,holds_base rfl,holds_base ?_,by simp⟩
  · exact (addr_zero _).symm
  · exact (addr_zero _).symm

theorem wide_prologue : ∃ t, Trace wideProgram
    (.running (Program.after .lpcRestoreSignalAsmArmWide wideProgram) f.state)
    (transfers true .r13 f.fp 10 ++ [⟨false, .r13, addr f.fp 10⟩, ⟨false, .r13, addr f.fp 11⟩])
    (.running ((wideLoops f.order).code (wideHead f.order).spot) t) ∧
    (wideHead f.order).Holds f.block 0 t := by
  refine ⟨((f.saved.set .r5 (f.state.reg .r2 + f.state.reg .r3 <<< 2)).set .r2
      (f.saved.mem (addr f.fp 10))).set .r8 (f.saved.mem (addr f.fp 11)),
    .step (.next rfl) (.step (.next rfl) (.step (.next rfl) (.step (.next rfl) .done))),?_,Nat.mod_one _⟩
  rw [f.saved_pointer]
  apply symbols_hold
  simp only [wideHead, List.forall_mem_cons]
  refine ⟨holds_base ?_,holds_base f.count,f.r3,?_,holds_base ?_,holds_base rfl,by simp⟩
  · exact (addr_zero _).symm
  · change f.state.reg .r2 + f.state.reg .r3 <<< 2 = f.state.reg .r2 + _
    have bytes : (4 * (f.order : Int)) = ((4 * f.order : Nat) : Int) := by omega
    rw [f.r3, words_asl, bytes, ofInt_ofNat]
  · exact (addr_zero _).symm

end LpcSubframe

theorem lpc_inside_iff (f : LpcSubframe) :
    Inside program f.block.Allows
      (.running (Program.after .lpcRestoreSignalAsmArm program) f.state) ↔ 0 < f.len := by
  obtain ⟨t,trace,start⟩ := f.lpc_prologue
  rw [trace.inside_iff f.saved_allowed]
  exact entry_inside_iff (lpc_checked f.order_positive f.order_small) rfl rfl
    (lpc_entryOk f.order f.order_small f.order_positive) start

theorem wide_inside_iff (f : LpcSubframe) :
    Inside wideProgram f.block.Allows
      (.running (Program.after .lpcRestoreSignalAsmArmWide wideProgram) f.state) ↔ 0 < f.len := by
  obtain ⟨t,trace,start⟩ := f.wide_prologue
  rw [trace.inside_iff f.saved_allowed]
  exact heads_inside_iff (wide_checked f.order_positive f.order_small) rfl rfl
    (List.mem_singleton.mpr rfl) start

/-- All three restorers, for every order that a subframe can have. -/
theorem restorers_inside_iff (f : FixedSubframe) (g : LpcSubframe) :
    (Inside fixedProgram f.block.Allows
      (.running (Program.after .fixedRestoreSignalAsmArm fixedProgram) f.state) ↔ 0 < f.len) ∧
    (Inside program g.block.Allows
      (.running (Program.after .lpcRestoreSignalAsmArm program) g.state) ↔ 0 < g.len) ∧
    (Inside wideProgram g.block.Allows
      (.running (Program.after .lpcRestoreSignalAsmArmWide wideProgram) g.state) ↔ 0 < g.len) :=
  ⟨fixed_inside_iff f,lpc_inside_iff g,wide_inside_iff g⟩

/-- A block of one sample that is the warm-up of a subframe of order one. -/
def warmUpOnly : LpcSubframe where
  state :=
    { reg := fun
        | .r0 => 0x2000#32
        | .r1 => 0#32
        | .r2 => 0x3000#32
        | .r3 => 1#32
        | .r13 => 0x8000#32
        | _ => 0#32
      mem := fun a => if a = 0x8004#32 then 0x1004#32 else 0#32
      z := false
      c := false }
  order := 1
  len := 0
  data := 0x1004#32
  small := by decide
  count := rfl
  order_positive := by decide
  order_small := by decide
  r3 := rfl
  pointer := rfl

theorem warmUpOnly_runs_past : warmUpOnly.len = 0 ∧ ¬ Inside program warmUpOnly.block.Allows
    (.running (Program.after .lpcRestoreSignalAsmArm program) warmUpOnly.state) := by
  refine ⟨rfl,?_⟩
  rw [lpc_inside_iff]
  exact Nat.lt_irrefl 0

end RestoreBounds
