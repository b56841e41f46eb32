import SqueezeOS.Msp430.Scans
import Mathlib.Algebra.Group.Nat.Defs

/- Sequences of the operations that JTAGfuncSBW.c is made of, as the chip hears them. -/
namespace Sbw
open Tap SpyBiWire

theorem mask_bit (data : Word) {top : Nat} (inside : top < 16) :
    (data &&& BitVec.twoPow 16 top != 0) = data.getLsbD top := by
  rw [BitVec.and_twoPow]
  cases data.getLsbD top with
  | true =>
    rw [if_pos rfl, bne_iff_ne]
    intro zero
    have := congrArg (fun w => BitVec.getLsbD w top) zero
    simp [inside] at this
  | false => simp

theorem msbFirst_eq (top n : Nat) (data : Word) (inside : top < 16) (few : n ≤ top + 1) :
    msbFirst (BitVec.twoPow 16 top) n data = (List.range n).map fun k => data.getLsbD (top - k) := by
  induction n generalizing data with
  | zero => rfl
  | succ n ih =>
    rw [msbFirst, mask_bit data inside, ih (data <<< 1) (by omega), List.range_succ_eq_map,
      List.map_cons, List.map_map]
    congr 1
    apply List.map_congr_left
    intro k below
    have small := List.mem_range.mp below
    have shifted : top - k = top - (k + 1) + 1 := by omega
    have bound : top - (k + 1) + 1 < 16 := by omega
    rw [Function.comp_apply, shifted, BitVec.getLsbD_shiftLeft]
    simp [bound]

def wordBits (w : Word) : List Bool := (List.range 16).map fun k => w.getLsbD (15 - k)

def byteBits (b : BitVec 8) : List Bool := (List.range 8).map fun k => b.getLsbD (7 - k)

theorem msbFirst_word (data : Word) : Format.word.msbFirst data = wordBits data :=
  msbFirst_eq 15 16 data (by decide) (by decide)

theorem msbFirst_byte (b : BitVec 8) :
    Format.byte.msbFirst (b.setWidth 16) = byteBits b := by
  refine (msbFirst_eq 7 8 (b.setWidth 16) (by decide) (by decide)).trans ?_
  apply List.map_congr_left
  intro k below
  have small := List.mem_range.mp below
  rw [BitVec.getLsbD_setWidth]
  have bound : 7 - k < 16 := by omega
  simp [bound]

theorem shift_bit (w : Word) (i : Nat) :
    (bif w.getLsbD i then (w >>> (i + 1)) <<< 1 + 1 else (w >>> (i + 1)) <<< 1) = w >>> i := by
  apply BitVec.eq_of_toNat_eq
  have bit := BitVec.testBit_toNat (x := w) (i := i)
  have half : w.toNat >>> (i + 1) = w.toNat / 2 ^ i / 2 := by
    rw [Nat.shiftRight_eq_div_pow, Nat.pow_succ, Nat.div_div_eq_div_mul]
  have low : w.toNat >>> i = w.toNat / 2 ^ i := Nat.shiftRight_eq_div_pow _ _
  have small : w.toNat / 2 ^ i < 2 ^ 16 := Nat.lt_of_le_of_lt (Nat.div_le_self _ _) w.isLt
  have one : (1 : Word).toNat = 1 := rfl
  rw [Nat.testBit_eq_decide_div_mod_eq] at bit
  cases set : w.getLsbD i with
  | true =>
    rw [set, decide_eq_true_iff] at bit
    simp only [cond_true, BitVec.toNat_add, BitVec.toNat_shiftLeft, BitVec.toNat_ushiftRight, half, low,
      one, Nat.shiftLeft_eq]
    omega
  | false =>
    rw [set, decide_eq_false_iff_not] at bit
    simp only [cond_false, BitVec.toNat_shiftLeft, BitVec.toNat_ushiftRight, half, low, Nat.shiftLeft_eq]
    omega

theorem collect_bits (w : Word) (i : Nat) :
    collect ((w >>> (i + 1)) <<< 1) ((List.range (i + 1)).map fun k => w.getLsbD (i - k)) = w := by
  induction i with
  | zero => simpa [collect] using shift_bit w 0
  | succ i ih =>
    have shape : (List.range (i + 1 + 1)).map (fun k => w.getLsbD (i + 1 - k)) =
        w.getLsbD (i + 1) :: (List.range (i + 1)).map fun k => w.getLsbD (i - k) := by
      rw [List.range_succ_eq_map, List.map_cons, List.map_map]
      congr 1
      apply List.map_congr_left
      intro k _
      simp only [Function.comp_apply]
      congr 1
      omega
    have next : (List.range (i + 1)).map (fun k => w.getLsbD (i - k)) =
        w.getLsbD i :: ((List.range i).map Nat.succ).map fun k => w.getLsbD (i - k) := by
      rw [List.range_succ_eq_map, List.map_cons]
      rfl
    rw [shape, next, collect_cons, shift_bit, ← next, ih]

/-- ClrTCLK, SetTCLK, TCLKstrobes and the scans. `through` is the scan of one bit by which
    VerifyPSA_sbw clocks the signature. -/
inductive Op where
  | ir (instruction : BitVec 8)
  | dr (data : Word)
  | through
  | clrTclk
  | setTclk
  | tclkStrobes (amount : Nat)
  deriving DecidableEq, Repr

def Op.scan (high : Bool) : Op → Scan (List Bool)
  | .ir instruction => .ir (byteBits instruction)
  | .dr data => .dr (wordBits data)
  | .through => .dr [true]
  | .clrTclk => .idle (heard false (held high) [false] false)
  | .setTclk => .idle (heard false (held high) [true] true)
  | .tclkStrobes amount => .idle (heard false (held high) (pulses amount) true)

def Op.level (high : Bool) : Op → Bool
  | .clrTclk => false
  | .setTclk => true
  | .tclkStrobes _ => true
  | _ => high

def scansOf (high : Bool) : List Op → List (Scan (List Bool))
  | [] => []
  | op :: ops => op.scan high :: scansOf (op.level high) ops

section
variable (start : Chip) (target : List Wire → Bool)

/-- The six calls in the loop of VerifyPSA_sbw between its SetTCLK and its ClrTCLK. -/
def clockThrough (h : Host) : Host :=
  let h := tmslTdih target (tmslTdih target (tmshTdih target h))
  tmslTdih target (tmshTdih target (tmshTdih target h))

def issue (op : Op) (h : Host) : Host :=
  match op with
  | .ir instruction => (irShift target instruction h).2
  | .dr data => (drShift16 target data h).2
  | .through => clockThrough target h
  | .clrTclk => clrTclk target h
  | .setTclk => setTclk target h
  | .tclkStrobes amount => tclkStrobes target amount h

def issueAll (ops : List Op) (h : Host) : Host := ops.foldl (fun h op => issue target op h) h

/-- An idle chip leaves the line to the resistor that pulls it up. -/
def LeavesHigh : Prop := ∀ wire, (start.run wire).port.state = .runTestIdle → target wire = true

structure Ready (h : Host) : Prop where
  joined : Joined start h
  idle : (port start h).state = .runTestIdle

variable {start target} {h : Host}

theorem clockThrough_scanned (target : List Wire → Bool) (ready : Ready start h) :
    Scanned start target h (clockThrough target h) (.dr [true]) := by
  have select := slots_passes target ready.joined true true false
  have capture := select.trans (slots_passes target select.joined false true false)
  have state := capture.port.trans (select_dr ready.idle rfl rfl)
  have shift := slots_passes target capture.joined false true false
  have bit := shift.trans (slots_passes target shift.joined true true false)
  have exit := bit.trans (slots_passes target bit.joined true true false)
  have last := exit.trans (slots_passes target exit.joined false true false)
  have shifting : Shifting [true] [slot true true] := shiftCycles_shifting true []
  have whole := last.port
  rw [state] at whole
  have final : port start (clockThrough target h) =
      ⟨.runTestIdle,[true],(port start h).seen ++ [Register.data.scan [true]]⟩ :=
    whole.trans (scan_run shifting _ _ rfl rfl rfl)
  obtain ⟨wire,answer,same⟩ := last.answer
  exact scanned_of_port rfl last.joined final ⟨wire,answer,by rw [same]; exact congrArg Port.state final⟩

theorem issue_scanned (target : List Wire → Bool) (ready : Ready start h) (op : Op) :
    Scanned start target h (issue target op h) (op.scan (h.tclkSaved && h.sbwtdio)) := by
  cases op with
  | ir instruction =>
    have exchanged := irShift_exchanged target ready.joined ready.idle instruction
    rw [msbFirst_byte] at exchanged
    exact exchanged.scanned
  | dr data =>
    have exchanged := drShift16_exchanged target ready.joined ready.idle data
    rw [msbFirst_word] at exchanged
    exact exchanged.scanned
  | through => exact clockThrough_scanned target ready
  | clrTclk => exact (clrTclk_advances target ready.joined.output).scanned ready.joined ready.idle
  | setTclk => exact (setTclk_advances target ready.joined.output).scanned ready.joined ready.idle
  | tclkStrobes amount =>
    exact (tclkStrobes_advances target amount ready.joined.output).scanned ready.joined ready.idle

theorem issue_ready (target : List Wire → Bool) (ready : Ready start h) (op : Op) :
    Ready start (issue target op h) :=
  ⟨(issue_scanned target ready op).joined,(issue_scanned target ready op).idle⟩

theorem clockThrough_tclkSaved (h : Host) : (clockThrough target h).tclkSaved = h.tclkSaved := by
  simp [clockThrough, tmslTdih, tmshTdih]

theorem scanned_high (leaves : LeavesHigh start target) {t : Host} {scan : Scan (List Bool)}
    (scanned : Scanned start target h t scan) : t.sbwtdio = true := by
  obtain ⟨wire,answer,idle⟩ := scanned.answer
  rw [answer]
  exact leaves wire idle

/-- What TCLK_saved is good for: it is the level of TCLK, as long as an idle chip leaves the line
    high. -/
theorem issue_tclkSaved (leaves : LeavesHigh start target) (ready : Ready start h) (op : Op) :
    (issue target op h).tclkSaved = op.level h.tclkSaved := by
  cases op with
  | ir instruction =>
    exact (irShift_exchanged target ready.joined ready.idle instruction).saved
  | dr data => exact (drShift16_exchanged target ready.joined ready.idle data).saved
  | through => exact clockThrough_tclkSaved h
  | clrTclk => rfl
  | setTclk => rfl
  | tclkStrobes amount =>
    have high := scanned_high leaves (issue_scanned target ready (.tclkStrobes amount))
    have output := (issue_ready target ready (.tclkStrobes amount)).joined.output
    have saved : (issue target (.tclkStrobes amount) h).tclkSaved =
        sbwtdioGet target (issue target (.tclkStrobes amount) h) := rfl
    rw [saved, sbwtdioGet, output]
    exact high

structure Issued (start : Chip) (target : List Wire → Bool) (h t : Host) (ops : List Op) : Prop where
  ready : Ready start t
  seen : (port start t).seen = (port start h).seen ++ scansOf h.tclkSaved ops
  saved : t.tclkSaved = ops.foldl Op.level h.tclkSaved
  high : t.sbwtdio = true

theorem scansOf_append (high : Bool) (first later : List Op) :
    scansOf high (first ++ later) = scansOf high first ++ scansOf (first.foldl Op.level high) later := by
  induction first generalizing high with
  | nil => rfl
  | cons op first ih => exact congrArg (op.scan high :: ·) (ih (op.level high))

theorem Issued.trans {t u : Host} {first later : List Op} (one : Issued start target h t first)
    (other : Issued start target t u later) : Issued start target h u (first ++ later) where
  ready := other.ready
  seen := by rw [other.seen, one.seen, one.saved, scansOf_append, List.append_assoc]
  saved := by rw [other.saved, one.saved, List.foldl_append]
  high := other.high

theorem issue_issued (leaves : LeavesHigh start target) (ready : Ready start h)
    (high : h.sbwtdio = true) (op : Op) : Issued start target h (issue target op h) [op] where
  ready := issue_ready target ready op
  seen := by
    have scanned := (issue_scanned target ready op).seen
    rw [high, Bool.and_true] at scanned
    exact scanned
  saved := issue_tclkSaved leaves ready op
  high := scanned_high leaves (issue_scanned target ready op)

theorem issueAll_issued (leaves : LeavesHigh start target) (ready : Ready start h)
    (high : h.sbwtdio = true) (ops : List Op) :
    Issued start target h (issueAll target ops h) ops := by
  induction ops generalizing h with
  | nil => exact ⟨ready,by simp [issueAll, scansOf],rfl,high⟩
  | cons op ops ih =>
    have one := issue_issued leaves ready high op
    exact one.trans (ih one.ready one.high)

/-- For every chip each operation is heard as one scan, which the answers of the chip can change
    only in the level that TCLK starts from. -/
theorem issueAll_scans (target : List Wire → Bool) (ready : Ready start h) (ops : List Op) :
    Ready start (issueAll target ops h) ∧ ∃ scans,
      (port start (issueAll target ops h)).seen = (port start h).seen ++ scans ∧
      List.Forall₂ (fun op scan => ∃ high, scan = op.scan high) ops scans := by
  induction ops generalizing h with
  | nil => exact ⟨ready,[],by simp [issueAll],.nil⟩
  | cons op ops ih =>
    obtain ⟨last,scans,seen,each⟩ := ih (issue_ready target ready op)
    have one := (issue_scanned target ready op).seen
    refine ⟨last,op.scan (h.tclkSaved && h.sbwtdio) :: scans,?_,.cons ⟨_,rfl⟩ each⟩
    change (port start (issueAll target ops (issue target op h))).seen = _
    rw [seen, one, List.append_assoc, List.singleton_append]

theorem resetLoop_passes (target : List Wire → Bool) (n : Nat) (joined : Joined start h) : ∃ cycles,
    cycles.map TckCycle.tms = List.replicate (n + 1) true ∧
    Passes start target h (resetLoop target (n + 1) h) cycles := by
  induction n generalizing h with
  | zero => exact ⟨_,rfl,slots_passes target joined true true false⟩
  | succ n ih =>
    have first := slots_passes target joined true true false
    obtain ⟨cycles,tms,rest⟩ := ih first.joined
    refine ⟨_,?_,first.trans rest⟩
    rw [List.map_append, tms]
    rfl

def resetTms : List Bool :=
  List.replicate 6 true ++ [false, true, false, true, false, true, true, false]

theorem resetTap_cycles (target : List Wire → Bool) (joined : Joined start h) : ∃ cycles,
    cycles.map TckCycle.tms = resetTms ∧ Passes start target h (resetTap target h) cycles := by
  obtain ⟨cycles,tms,reset⟩ := resetLoop_passes target 5 joined
  have one := reset.trans (slots_passes target reset.joined false true false)
  have two := one.trans (slots_passes target one.joined true true false)
  have three := two.trans (slots_passes target two.joined false true false)
  have four := three.trans (slots_passes target three.joined true true false)
  have five := four.trans (slots_passes target four.joined false true false)
  have six := five.trans (slots_passes target five.joined true true false)
  have seven := six.trans (slots_passes target six.joined true true false)
  have last := seven.trans (slots_passes target seven.joined false true false)
  refine ⟨_,?_,last⟩
  simp only [List.map_append, tms]
  rfl

theorem resetTap_passes (target : List Wire → Bool) (joined : Joined start h) :
    Ready start (resetTap target h) ∧ ∃ wire, (resetTap target h).sbwtdio = target wire ∧
      (start.run wire).port.state = .runTestIdle := by
  obtain ⟨cycles,tms,last⟩ := resetTap_cycles target joined
  have idle : (port start (resetTap target h)).state = .runTestIdle := by
    rw [last.port, run_state, tms, resetTms, List.foldl_append, reset_any _ 1]
    rfl
  obtain ⟨wire,answer,same⟩ := last.answer
  exact ⟨⟨last.joined,idle⟩,wire,answer,by rw [same]; exact idle⟩

/-- ResetTAP_sbw brings the port to idle from each of its states, also out of a scan that was
    broken off, and what follows is heard as it is meant. -/
theorem resetTap_then_ops (target : List Wire → Bool) (joined : Joined start h) (ops : List Op) :
    Ready start (issueAll target ops (resetTap target h)) ∧ ∃ scans,
      (port start (issueAll target ops (resetTap target h))).seen =
        (port start (resetTap target h)).seen ++ scans ∧
      List.Forall₂ (fun op scan => ∃ high, scan = op.scan high) ops scans ∧
      (LeavesHigh start target → scans = scansOf (resetTap target h).tclkSaved ops) := by
  obtain ⟨ready,wire,answer,idle⟩ := resetTap_passes target joined
  obtain ⟨last,scans,seen,each⟩ := issueAll_scans target ready ops
  refine ⟨last,scans,seen,each,?_⟩
  intro leaves
  have high : (resetTap target h).sbwtdio = true := by
    rw [answer]
    exact leaves wire idle
  have exactly := (issueAll_issued leaves ready high ops).seen
  rw [seen] at exactly
  exact List.append_cancel_left exactly

/-- The chip shows these bits, which depend on what it has seen, one after each bit that it has
    taken into the register. -/
def Shows (start : Chip) (target : List Wire → Bool) (r : Register)
    (shown : List (Scan (List Bool)) → List Bool) : Prop :=
  ∀ wire k tdo, (shown (start.run wire).port.seen)[k]? = some tdo →
    ((start.run wire).port.state = r.shift ∨ (start.run wire).port.state = r.exit1) →
    (start.run wire).port.shifted.length = k + 1 → target wire = tdo

theorem Reads.shown {r : Register} {seen : List (Scan (List Bool))} {bits answers : List Bool}
    {shown : List (Scan (List Bool)) → List Bool} (reads : Reads start target r seen bits answers)
    (shows : Shows start target r shown) (length : (shown seen).length = bits.length) :
    answers = shown seen := by
  apply List.ext_getElem (reads.1.trans length.symm)
  intro k inside other
  obtain ⟨wire,answer,here⟩ := reads.2 k _ (List.getElem?_eq_getElem inside)
  rw [answer]
  apply shows wire k
  · rw [here]
    exact List.getElem?_eq_getElem other
  · rw [here]
    dsimp only
    split
    · exact Or.inl rfl
    · exact Or.inr rfl
  · rw [here, List.length_take]
    have count := reads.1
    omega

theorem collect_all {w : Word} {i : Nat} (above : w.toNat < 2 ^ (i + 1)) :
    collect 0 ((List.range (i + 1)).map fun k => w.getLsbD (i - k)) = w := by
  have none : w >>> (i + 1) = 0 := by
    apply BitVec.eq_of_toNat_eq
    rw [BitVec.toNat_ushiftRight, Nat.shiftRight_eq_div_pow, Nat.div_eq_of_lt above]
    rfl
  have whole := collect_bits w i
  rwa [none] at whole

theorem collect_word (w : Word) : collect 0 (wordBits w) = w := collect_all (i := 15) w.isLt

theorem collect_byte (b : BitVec 8) : collect 0 (byteBits b) = b.setWidth 16 := by
  have small : (b.setWidth 16 : Word).toNat < 2 ^ (7 + 1) := by
    have := b.isLt
    rw [BitVec.toNat_setWidth]
    omega
  refine Eq.trans ?_ (collect_all small)
  refine congrArg (collect 0) (List.map_congr_left ?_)
  intro k below
  have inside := List.mem_range.mp below
  rw [BitVec.getLsbD_setWidth]
  have bound : 7 - k < 16 := by omega
  simp [bound]

/-- The scans return the bits that the chip shows, although each is taken together with what the
    pin reads as when it is an output again. -/
theorem scans_return (target : List Wire → Bool) (ready : Ready start h) (instruction : BitVec 8)
    (data : Word) (word : List (Scan (List Bool)) → Word)
    (byte : List (Scan (List Bool)) → BitVec 8) :
    (Shows start target .data (fun seen => wordBits (word seen)) →
      (drShift16 target data h).1 = word (port start h).seen) ∧
    (Shows start target .instruction (fun seen => byteBits (byte seen)) →
      (irShift target instruction h).1 = (byte (port start h).seen).setWidth 16) := by
  constructor
  · intro shows
    obtain ⟨answers,reads,collected⟩ :=
      (drShift16_exchanged target ready.joined ready.idle data).word
    rw [msbFirst_word] at reads
    rw [collected, reads.shown shows (by simp [wordBits]), collect_word]
  · intro shows
    obtain ⟨answers,reads,collected⟩ :=
      (irShift_exchanged target ready.joined ready.idle instruction).word
    rw [msbFirst_byte] at reads
    rw [collected, reads.shown shows (by simp [byteBits]), collect_byte]

end

def showing (start : Chip) (word : List (Scan (List Bool)) → Word)
    (byte : List (Scan (List Bool)) → BitVec 8) (wire : List Wire) : Bool :=
  let port := (start.run wire).port
  match port.state with
  | .shiftDr | .exit1Dr => (wordBits (word port.seen)).getD (port.shifted.length - 1) true
  | .shiftIr | .exit1Ir => (byteBits (byte port.seen)).getD (port.shifted.length - 1) true
  | _ => true

section
variable (start : Chip) (word : List (Scan (List Bool)) → Word)
  (byte : List (Scan (List Bool)) → BitVec 8)

theorem showing_high : LeavesHigh start (showing start word byte) := by
  intro wire idle
  simp [showing, idle]

theorem showing_data :
    Shows start (showing start word byte) .data fun seen => wordBits (word seen) := by
  intro wire k tdo bit here taken
  change (start.run wire).port.state = .shiftDr ∨ (start.run wire).port.state = .exit1Dr at here
  rcases here with state | state <;>
    simp [showing, state, taken, List.getD_eq_getElem?_getD, bit]

theorem showing_instruction :
    Shows start (showing start word byte) .instruction fun seen => byteBits (byte seen) := by
  intro wire k tdo bit here taken
  change (start.run wire).port.state = .shiftIr ∨ (start.run wire).port.state = .exit1Ir at here
  rcases here with state | state <;>
    simp [showing, state, taken, List.getD_eq_getElem?_getD, bit]

end

def brokenOff : Chip := ⟨true,true,.tms,true,true,[],⟨.pauseIr,[true, false],[]⟩⟩

def freshHost : Host := ⟨true,true,false,false,true,false,[]⟩

theorem freshHost_joined : Joined brokenOff freshHost := ⟨rfl,⟨rfl,rfl⟩⟩

theorem freshHost_reset (target : List Wire → Bool) :
    Ready brokenOff (resetTap target freshHost) := (resetTap_passes target freshHost_joined).1

def showsSame : List Wire → Bool := showing brokenOff (fun _ => 0x1234) fun _ => 0x89

theorem scans_return_id :
    (drShift16 showsSame 0 (resetTap showsSame freshHost)).1 = 0x1234 ∧
      (irShift showsSame 0x28 (resetTap showsSame freshHost)).1 = 0x89 := by
  have both := scans_return showsSame (freshHost_reset showsSame) 0x28 0 (fun _ => 0x1234)
    fun _ => 0x89
  exact ⟨both.1 (showing_data _ _ _),both.2 (showing_instruction _ _ _)⟩

theorem resetTap_then_get : Joined brokenOff freshHost ∧
    ∃ scans, (port brokenOff (issueAll showsSame [.ir 0xC8, .dr 0x2401]
      (resetTap showsSame freshHost))).seen =
        (port brokenOff (resetTap showsSame freshHost)).seen ++ scans ∧
      scans = [.ir (byteBits 0xC8), .dr (wordBits 0x2401)] := by
  obtain ⟨-,scans,seen,-,exactly⟩ := resetTap_then_ops showsSame freshHost_joined
    [.ir 0xC8, .dr 0x2401]
  exact ⟨freshHost_joined,scans,seen,exactly (showing_high brokenOff _ _)⟩

end Sbw
