import SqueezeOS.Msp430.Ops

/- The bus of the chip behind its port, as far as the comments of JTAGfuncSBW.c and JTAGfuncSBW.h
   tell it: instructions that select what the data are, and TCLK, that clocks the bus. -/
namespace Sbw
open Tap SpyBiWire

def irCntrlSig16bit : BitVec 8 := 0xC8

def irCntrlSigCapture : BitVec 8 := 0x28

def irData16bit : BitVec 8 := 0x82

def irAddr16bit : BitVec 8 := 0xC1

def irAddrCapture : BitVec 8 := 0x21

def irDataToAddr : BitVec 8 := 0xA1

/-- A period of TCLK: a word is stored when the chip is set to write and addressed by hand. -/
inductive Access where
  | store (address data : Word)
  | cycle
  deriving DecidableEq, Repr

structure Bus where
  instruction : Word
  control : Word
  address : Word
  data : Word
  tclk : Bool
  accesses : List Access

/-- The lowest bit of the control signals is RW, which is clear to write. -/
def Bus.access (b : Bus) : Access :=
  if b.instruction = irDataToAddr.setWidth 16 ∧ b.control &&& 1 = 0 then
    .store b.address b.data
  else .cycle

/-- A period of TCLK ends when it falls. -/
def Bus.clock (b : Bus) (level : Bool) : Bus :=
  { b with
    tclk := level
    accesses := if b.tclk && !level then b.accesses ++ [b.access] else b.accesses }

def Bus.load (b : Bus) (word : Word) : Bus :=
  if b.instruction = irCntrlSig16bit.setWidth 16 then { b with control := word }
  else if b.instruction = irAddr16bit.setWidth 16 then { b with address := word }
  else if b.instruction = irDataToAddr.setWidth 16 then { b with data := word }
  else b

def Bus.hear (b : Bus) : Scan (List Bool) → Bus
  | .ir bits => { b with instruction := collect 0 bits }
  | .dr bits => b.load (collect 0 bits)
  | .idle levels => levels.foldl Bus.clock b

def Bus.perform (b : Bus) : Op → Bus
  | .ir instruction => { b with instruction := instruction.setWidth 16 }
  | .dr data => b.load data
  | .through => b.load 1
  | .clrTclk => b.clock false
  | .setTclk => b.clock true
  | .tclkStrobes amount => (pulses amount ++ [true]).foldl Bus.clock b

@[simp] theorem clock_tclk (b : Bus) (level : Bool) : (b.clock level).tclk = level := rfl

theorem clock_same (b : Bus) : b.clock b.tclk = b := by
  obtain ⟨instruction,control,address,data,tclk,accesses⟩ := b
  cases tclk <;> rfl

theorem clock_follow (b : Bus) (levels : List Bool) (level : Bool)
    (last : levels.getLast? = some (levels.foldl Bus.clock b).tclk) :
    (follow levels level).foldl Bus.clock b = (levels.foldl Bus.clock b).clock level := by
  unfold follow
  split
  · rename_i same
    rw [last] at same
    rw [Option.some.inj same, clock_same]
  · rw [List.foldl_append]
    rfl

theorem clock_heard (b : Bus) (levels more : List Bool)
    (last : levels.getLast? = some (levels.foldl Bus.clock b).tclk) :
    (more.foldl follow levels).foldl Bus.clock b = more.foldl Bus.clock (levels.foldl Bus.clock b) := by
  induction more generalizing levels with
  | nil => rfl
  | cons level more ih =>
    have one := clock_follow b levels level last
    have next : (follow levels level).getLast? =
        some ((follow levels level).foldl Bus.clock b).tclk := by
      rw [one, clock_tclk]
      unfold follow
      split
      · rename_i same
        exact same.symm
      · simp
    rw [List.foldl_cons, ih _ next, one]
    rfl

theorem perform_scan (b : Bus) (op : Op) : b.hear (op.scan b.tclk) = b.perform op := by
  have start (levels : List Bool) (tdi : Bool) :
      (heard false (held b.tclk) levels tdi).foldl Bus.clock b =
        (levels ++ [tdi]).foldl Bus.clock b := by
    have same : [(held b.tclk).getLast?.getD false].foldl Bus.clock b = b := by
      have level : (held b.tclk).getLast?.getD false = b.tclk := by cases b.tclk <;> rfl
      rw [level]
      exact clock_same b
    rw [heard, clock_heard b _ _ (by simp), same]
  have twice (level : Bool) : (b.clock level).clock level = b.clock level := clock_same _
  cases op with
  | ir instruction => exact congrArg (fun w => { b with instruction := w }) (collect_byte instruction)
  | dr data => exact congrArg b.load (collect_word data)
  | through => rfl
  | clrTclk => exact (start [false] false).trans (twice false)
  | setTclk => exact (start [true] true).trans (twice true)
  | tclkStrobes amount => exact start (pulses amount) true

end Sbw
