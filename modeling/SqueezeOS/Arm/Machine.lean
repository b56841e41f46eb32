import Mathlib.Data.BitVec
import Mathlib.Tactic.Ring

/- A subset of the 32-bit ARM instruction set, over an arbitrary type of labels.
   Memory holds one word per word-aligned byte address. A position in the code is
   the list of the instructions that follow it, so falling through a label costs
   nothing. Only the Z and C flags are kept: no condition used here reads N or V. -/
namespace Arm

abbrev Word := BitVec 32
abbrev Mem := Word → Word

inductive Reg where
  | r0 | r1 | r2 | r3 | r4 | r5 | r6 | r7 | r8 | r9 | r10 | r11 | r12 | r13 | r14
  deriving DecidableEq, Repr

structure State where
  reg : Reg → Word
  mem : Mem
  z : Bool
  c : Bool

def State.set (s : State) (r : Reg) (w : Word) : State :=
  { s with reg := Function.update s.reg r w }

def State.store (s : State) (a w : Word) : State :=
  { s with mem := Function.update s.mem a w }

/-- The address `n` words above, respectively below, a base address. -/
def addr (base : Word) (n : Nat) : Word := base + BitVec.ofNat 32 (4 * n)
def below (base : Word) (n : Nat) : Word := base - BitVec.ofNat 32 (4 * n)

inductive Cond where
  | eq | ne | ls
  deriving DecidableEq, Repr

def Cond.holds (s : State) : Cond → Bool
  | .eq => s.z
  | .ne => !s.z
  | .ls => !s.c || s.z

/-- The flexible second operand. A shift by a register uses its low byte. -/
inductive Operand where
  | imm (n : Nat)
  | reg (r : Reg)
  | asl (r : Reg) (n : Nat)
  | lsr (r : Reg) (n : Nat)
  | lslBy (r amount : Reg)
  | lsrBy (r amount : Reg)
  | asrBy (r amount : Reg)
  deriving DecidableEq, Repr

def Operand.value (s : State) : Operand → Word
  | .imm n => BitVec.ofNat 32 n
  | .reg r => s.reg r
  | .asl r n => s.reg r <<< n
  | .lsr r n => s.reg r >>> n
  | .lslBy r amount => s.reg r <<< ((s.reg amount).toNat % 256)
  | .lsrBy r amount => s.reg r >>> ((s.reg amount).toNat % 256)
  | .asrBy r amount => (s.reg r).sshiftRight ((s.reg amount).toNat % 256)

/-- `[rn, #off]`, `[rn, #off]!` and `[rn], #off`. -/
inductive Address where
  | at (rn : Reg) (off : Int)
  | pre (rn : Reg) (off : Int)
  | post (rn : Reg) (off : Int)
  deriving DecidableEq, Repr

def offset (base : Word) (off : Int) : Word :=
  if off < 0 then base - BitVec.ofNat 32 (-off).toNat else base + BitVec.ofNat 32 off.toNat

def Address.target (s : State) : Address → Word
  | .at rn off => offset (s.reg rn) off
  | .pre rn off => offset (s.reg rn) off
  | .post rn _ => s.reg rn

def Address.writeback (s : State) : Address → State
  | .at _ _ => s
  | .pre rn off => s.set rn (offset (s.reg rn) off)
  | .post rn off => s.set rn (offset (s.reg rn) off)

inductive Mode where
  | ia | da | db
  deriving DecidableEq, Repr

/-- The lowest address a multiple transfer of `n` registers uses, and the base
    register's value after it. -/
def Mode.start (base : Word) (n : Nat) : Mode → Word
  | .ia => base
  | .da => below base (n - 1)
  | .db => below base n

def Mode.finish (base : Word) (n : Nat) : Mode → Word
  | .ia => addr base n
  | .da => below base n
  | .db => below base n

/-- Registers are listed, and transferred, in ascending order at ascending addresses. -/
def loadRegs (m : Mem) (a : Word) (k : Nat) : List Reg → State → State
  | [], s => s
  | r :: rs, s => loadRegs m a (k + 1) rs (s.set r (m (addr a k)))

def storeRegs (regs : Reg → Word) (a : Word) (k : Nat) : List Reg → Mem → Mem
  | [], m => m
  | r :: rs, m => storeRegs regs a (k + 1) rs (Function.update m (addr a k) (regs r))

inductive Instr (L : Type) where
  | mov (rd : Reg) (op : Operand)
  | add (rd rn : Reg) (op : Operand)
  | sub (rd rn : Reg) (op : Operand)
  | rsb (rd rn : Reg) (op : Operand)
  | orr (rd rn : Reg) (op : Operand)
  | and (rd rn : Reg) (op : Operand)
  | subs (rd rn : Reg) (op : Operand)
  | ands (rd rn : Reg) (op : Operand)
  | cmp (rn : Reg) (op : Operand)
  | tst (rn : Reg) (op : Operand)
  | mul (rd rm rs : Reg)
  | mla (rd rm rs rn : Reg)
  | smlal (lo hi rm rs : Reg)
  | ldr (rd : Reg) (a : Address)
  | str (rd : Reg) (a : Address)
  | ldm (mode : Mode) (rn : Reg) (wb : Bool) (rs : List Reg)
  | stm (mode : Mode) (rn : Reg) (wb : Bool) (rs : List Reg)
  /-- `ldmfd rn!, {rs, r15}`: pops `rs` and then the program counter. -/
  | ldmfdPc (rn : Reg) (rs : List Reg)
  /-- `ldr r15, [r15, index, asl #2]`. The program counter reads as the address of
      this instruction plus 8, where the table of code addresses starts: one
      instruction stands between them. -/
  | ldrPc (index : Reg) (table : List L)
  | b (l : L)
  | when (cond : Cond) (i : Instr L)

inductive Outcome (L : Type) where
  | next (s : State)
  | jump (l : L) (s : State)
  | ret (pc : Word) (s : State)
  | fault

def wide (hi lo : Word) : BitVec 64 := hi ++ lo

def exec {L : Type} : Instr L → State → Outcome L
  | .mov rd op, s => .next (s.set rd (op.value s))
  | .add rd rn op, s => .next (s.set rd (s.reg rn + op.value s))
  | .sub rd rn op, s => .next (s.set rd (s.reg rn - op.value s))
  | .rsb rd rn op, s => .next (s.set rd (op.value s - s.reg rn))
  | .orr rd rn op, s => .next (s.set rd (s.reg rn ||| op.value s))
  | .and rd rn op, s => .next (s.set rd (s.reg rn &&& op.value s))
  | .subs rd rn op, s =>
      .next { s.set rd (s.reg rn - op.value s) with
        z := s.reg rn - op.value s == 0, c := decide (op.value s ≤ s.reg rn) }
  | .ands rd rn op, s =>
      .next { s.set rd (s.reg rn &&& op.value s) with z := (s.reg rn &&& op.value s) == 0 }
  | .cmp rn op, s =>
      .next { s with z := s.reg rn - op.value s == 0, c := decide (op.value s ≤ s.reg rn) }
  | .tst rn op, s => .next { s with z := (s.reg rn &&& op.value s) == 0 }
  | .mul rd rm rs, s => .next (s.set rd (s.reg rm * s.reg rs))
  | .mla rd rm rs rn, s => .next (s.set rd (s.reg rm * s.reg rs + s.reg rn))
  | .smlal lo hi rm rs, s =>
      let sum := wide (s.reg hi) (s.reg lo) +
        (s.reg rm).signExtend 64 * (s.reg rs).signExtend 64
      .next ((s.set lo (sum.extractLsb' 0 32)).set hi (sum.extractLsb' 32 32))
  | .ldr rd a, s => .next ((a.writeback s).set rd (s.mem (a.target s)))
  | .str rd a, s => .next (a.writeback (s.store (a.target s) (s.reg rd)))
  | .ldm mode rn wb rs, s =>
      let t := loadRegs s.mem (mode.start (s.reg rn) rs.length) 0 rs s
      .next (if wb then t.set rn (mode.finish (s.reg rn) rs.length) else t)
  | .stm mode rn wb rs, s =>
      let t := { s with mem := storeRegs s.reg (mode.start (s.reg rn) rs.length) 0 rs s.mem }
      .next (if wb then t.set rn (mode.finish (s.reg rn) rs.length) else t)
  | .ldmfdPc rn rs, s =>
      .ret (s.mem (addr (s.reg rn) rs.length))
        ((loadRegs s.mem (s.reg rn) 0 rs s).set rn (addr (s.reg rn) (rs.length + 1)))
  | .ldrPc index table, s =>
      match table[(s.reg index).toNat]? with
      | some l => .jump l s
      | none => .fault
  | .b l, s => .jump l s
  | .when cond i, s => if cond.holds s then exec i s else .next s

abbrev Program (L : Type) := List (L × List (Instr L))

def Program.after {L : Type} [DecidableEq L] (l : L) : Program L → List (Instr L)
  | [] => []
  | (k, is) :: rest =>
      if k = l then is ++ rest.flatMap Prod.snd else Program.after l rest

inductive Config (L : Type) where
  | running (code : List (Instr L)) (s : State)
  | returned (pc : Word) (s : State)

inductive Step {L : Type} [DecidableEq L] (p : Program L) : Config L → Config L → Prop where
  | next {i : Instr L} {rest : List (Instr L)} {s t : State} (h : exec i s = .next t) :
      Step p (.running (i :: rest) s) (.running rest t)
  | jump {i : Instr L} {rest : List (Instr L)} {s t : State} {l : L} (h : exec i s = .jump l t) :
      Step p (.running (i :: rest) s) (.running (Program.after l p) t)
  | ret {i : Instr L} {rest : List (Instr L)} {s t : State} {pc : Word}
      (h : exec i s = .ret pc t) : Step p (.running (i :: rest) s) (.returned pc t)

abbrev Steps {L : Type} [DecidableEq L] (p : Program L) : Config L → Config L → Prop :=
  Relation.ReflTransGen (Step p)

end Arm
