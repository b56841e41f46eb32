import SqueezeOS.Msp430.Bus

/- JTAGfuncSBW.c: the sequences that program the flash of the chip, and what they store on its
   bus. -/
namespace Sbw
open Tap SpyBiWire

section
variable (target : List Wire → Bool)

def fetchLoop : Nat → Host → Bool × Host
  | 0, h => (false, h)
  | i + 1, h =>
      let (word, h) := drShift16 target 0x0000 h
      if word &&& 0x0080 ≠ 0 then (true, h) else fetchLoop i (issueAll target [.clrTclk, .setTclk] h)

def setInstrFetch (h : Host) : Bool × Host :=
  fetchLoop target 50 (irShift target irCntrlSigCapture h).2

def haltCpu (h : Host) : Host :=
  issueAll target [.ir irData16bit, .dr 0x3FFF, .clrTclk, .ir irCntrlSig16bit, .dr 0x2409, .setTclk]
    (setInstrFetch target h).2

def releaseCpu (h : Host) : Host :=
  issueAll target [.clrTclk, .ir irCntrlSig16bit, .dr 0x2401, .ir irAddrCapture, .setTclk] h

def storeWord (addr data : Word) : List Op :=
  [.ir irAddr16bit, .dr addr, .ir irDataToAddr, .dr data, .setTclk, .clrTclk]

def writeWord (addr data : Word) : List Op :=
  .dr 0x2408 :: storeWord addr data ++ [.ir irCntrlSig16bit, .dr 0x2409, .tclkStrobes 35]

def writeWords (dataArray : Nat → Word) : Nat → Nat → Word → Host → Host
  | 0, _, _, h => h
  | length + 1, i, addr, h =>
      writeWords dataArray length (i + 1) (addr + 2) (issueAll target (writeWord addr (dataArray i)) h)

/-- FCTL1, FCTL2 and FCTL3. -/
def unlockFlash : List Op :=
  [.clrTclk, .ir irCntrlSig16bit, .dr 0x2408] ++ storeWord 0x0128 0xA540 ++
    storeWord 0x012A 0xA540 ++ storeWord 0x012C 0xA500 ++ [.ir irCntrlSig16bit]

/-- FCTL1 and FCTL3, the last one with its store to come. -/
def lockFlash : List Op :=
  [.ir irCntrlSig16bit, .dr 0x2408] ++ storeWord 0x0128 0xA500 ++
    [.ir irAddr16bit, .dr 0x012C, .ir irDataToAddr, .dr 0xA500, .setTclk]

def writeFlash (startAddr : Word) (length : Nat) (dataArray : Nat → Word) (h : Host) : Host :=
  let h := issueAll target unlockFlash (haltCpu target h)
  let h := writeWords target dataArray length 0 startAddr h
  releaseCpu target (issueAll target lockFlash h)

def eraseMass : Word := 0xA506

def eraseMain : Word := 0xA504

/-- StrobeAmount and loopcount. -/
def eraseTimes (fastFlash : Bool) (eraseMode : Word) : Nat × Nat :=
  if eraseMode = eraseMass ∨ eraseMode = eraseMain then
    if fastFlash then (10600, 1) else (5300, 19)
  else (4820, 1)

/-- The bus after all that the port has heard; `first` is what it was before. -/
def bus (start : Chip) (first : Bus) (h : Host) : Bus := (port start h).seen.foldl Bus.hear first

structure Attached (start : Chip) (first : Bus) (h : Host) : Prop where
  ready : Ready start h
  high : h.sbwtdio = true
  tclk : (bus start first h).tclk = h.tclkSaved

variable {target} {start : Chip} {first : Bus} {h : Host}

theorem perform_tclk (b : Bus) (op : Op) : (b.perform op).tclk = op.level b.tclk := by
  cases op with
  | dr data => unfold Bus.perform Bus.load; split_ifs <;> rfl
  | through => unfold Bus.perform Bus.load; split_ifs <;> rfl
  | tclkStrobes amount => simp [Bus.perform, Op.level, List.foldl_append]
  | _ => rfl

theorem performs_tclk (b : Bus) (ops : List Op) :
    (ops.foldl Bus.perform b).tclk = ops.foldl Op.level b.tclk := by
  induction ops generalizing b with
  | nil => rfl
  | cons op ops ih => rw [List.foldl_cons, List.foldl_cons, ih, perform_tclk]

theorem scansOf_hear (b : Bus) (ops : List Op) :
    (scansOf b.tclk ops).foldl Bus.hear b = ops.foldl Bus.perform b := by
  induction ops generalizing b with
  | nil => rfl
  | cons op ops ih =>
    rw [scansOf, List.foldl_cons, List.foldl_cons, perform_scan, ← perform_tclk, ih]

theorem issueAll_bus (leaves : LeavesHigh start target) (attached : Attached start first h)
    (ops : List Op) : Attached start first (issueAll target ops h) ∧
      bus start first (issueAll target ops h) = ops.foldl Bus.perform (bus start first h) := by
  have issued := issueAll_issued leaves attached.ready attached.high ops
  have whole : bus start first (issueAll target ops h) =
      ops.foldl Bus.perform (bus start first h) := by
    rw [← scansOf_hear, attached.tclk, bus, issued.seen, List.foldl_append, bus]
  refine ⟨⟨issued.ready,issued.high,?_⟩,whole⟩
  rw [whole, performs_tclk, attached.tclk, issued.saved]

theorem Attached.issue (leaves : LeavesHigh start target) (attached : Attached start first h)
    (op : Op) : Attached start first (issue target op h) ∧
      bus start first (issue target op h) = (bus start first h).perform op :=
  issueAll_bus leaves attached [op]

/-- The wires are joined and the host knows the level of TCLK; the port is in any of its states. -/
structure Entered (start : Chip) (first : Bus) (h : Host) : Prop where
  joined : Joined start h
  tclk : (bus start first h).tclk = h.tclkSaved

def programmed (startAddr : Word) (length : Nat) (dataArray : Nat → Word) : List Access :=
  (List.range length).flatMap fun i =>
    .store (startAddr + BitVec.ofNat 16 (2 * i)) (dataArray i) :: List.replicate 34 .cycle

def erased (eraseMode eraseAddr : Word) (strobes : Nat) : List Access :=
  [.store 0x0128 eraseMode, .store 0x012A 0xA540, .store 0x012C 0xA500, .store eraseAddr 0x55AA] ++
    List.replicate strobes .cycle ++ [.store 0x0128 0xA500]

end

end Sbw
