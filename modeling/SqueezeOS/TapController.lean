import Mathlib.Data.List.Basic

/- A test access port as the controller of sixteen states, and what a run of it takes in: the
   instructions and the data that are scanned into it, and the cycles that it spends idle. -/
namespace Tap

inductive State where
  | testLogicReset
  | runTestIdle
  | selectDr
  | captureDr
  | shiftDr
  | exit1Dr
  | pauseDr
  | exit2Dr
  | updateDr
  | selectIr
  | captureIr
  | shiftIr
  | exit1Ir
  | pauseIr
  | exit2Ir
  | updateIr
  deriving DecidableEq, Repr

def State.next : State → Bool → State
  | .testLogicReset, tms => bif tms then .testLogicReset else .runTestIdle
  | .runTestIdle, tms => bif tms then .selectDr else .runTestIdle
  | .selectDr, tms => bif tms then .selectIr else .captureDr
  | .captureDr, tms => bif tms then .exit1Dr else .shiftDr
  | .shiftDr, tms => bif tms then .exit1Dr else .shiftDr
  | .exit1Dr, tms => bif tms then .updateDr else .pauseDr
  | .pauseDr, tms => bif tms then .exit2Dr else .pauseDr
  | .exit2Dr, tms => bif tms then .updateDr else .shiftDr
  | .updateDr, tms => bif tms then .selectDr else .runTestIdle
  | .selectIr, tms => bif tms then .testLogicReset else .captureIr
  | .captureIr, tms => bif tms then .exit1Ir else .shiftIr
  | .shiftIr, tms => bif tms then .exit1Ir else .shiftIr
  | .exit1Ir, tms => bif tms then .updateIr else .pauseIr
  | .pauseIr, tms => bif tms then .exit2Ir else .pauseIr
  | .exit2Ir, tms => bif tms then .updateIr else .shiftIr
  | .updateIr, tms => bif tms then .selectDr else .runTestIdle

variable {ι : Type}

/-- One cycle of the clock; `clock` is what an idle port makes of it. -/
structure TckCycle (ι : Type) where
  tms : Bool
  tdi : Bool
  clock : ι

inductive Scan (ι : Type) where
  | ir (bits : List Bool)
  | dr (bits : List Bool)
  | idle (clock : ι)
  deriving DecidableEq, Repr

structure Port (ι : Type) where
  state : State
  shifted : List Bool
  seen : List (Scan ι)

def take (state : State) (shifted : List Bool) (tdi : Bool) : List Bool :=
  match state with
  | .captureDr | .captureIr => []
  | .shiftDr | .shiftIr => shifted ++ [tdi]
  | _ => shifted

/-- The port has a scan when it comes to an update, and an idle cycle when it stays idle. -/
def scanned (state next : State) (bits : List Bool) (clock : ι) : List (Scan ι) :=
  match state, next with
  | _, .updateDr => [.dr bits]
  | _, .updateIr => [.ir bits]
  | .runTestIdle, .runTestIdle => [.idle clock]
  | _, _ => []

def Port.step (p : Port ι) (c : TckCycle ι) : Port ι where
  state := p.state.next c.tms
  shifted := take p.state p.shifted c.tdi
  seen := p.seen ++ scanned p.state (p.state.next c.tms) (take p.state p.shifted c.tdi) c.clock

def Port.run (p : Port ι) (cycles : List (TckCycle ι)) : Port ι := cycles.foldl Port.step p

@[simp] theorem run_nil (p : Port ι) : p.run [] = p := rfl

@[simp] theorem run_cons (p : Port ι) (c : TckCycle ι) (cycles : List (TckCycle ι)) :
    p.run (c :: cycles) = (p.step c).run cycles := rfl

theorem run_append (p : Port ι) (first later : List (TckCycle ι)) :
    p.run (first ++ later) = (p.run first).run later := List.foldl_append

inductive Shifting : List Bool → List (TckCycle ι) → Prop where
  | last {c : TckCycle ι} (leaves : c.tms = true) : Shifting [c.tdi] [c]
  | more {c : TckCycle ι} {bits : List Bool} {cycles : List (TckCycle ι)} (stays : c.tms = false)
      (rest : Shifting bits cycles) : Shifting (c.tdi :: bits) (c :: cycles)

inductive Register where
  | data
  | instruction

def Register.capture : Register → State
  | .data => .captureDr
  | .instruction => .captureIr

def Register.shift : Register → State
  | .data => .shiftDr
  | .instruction => .shiftIr

def Register.exit1 : Register → State
  | .data => .exit1Dr
  | .instruction => .exit1Ir

def Register.scan (bits : List Bool) : Register → Scan ι
  | .data => .dr bits
  | .instruction => .ir bits

variable {r : Register}

theorem step_more {c : TckCycle ι} (stays : c.tms = false) (before : List Bool) (seen : List (Scan ι)) :
    Port.step ⟨r.shift,before,seen⟩ c = ⟨r.shift,before ++ [c.tdi],seen⟩ := by
  cases r <;> simp [Port.step, State.next, take, scanned, Register.shift, stays]

theorem step_last {c : TckCycle ι} (leaves : c.tms = true) (before : List Bool) (seen : List (Scan ι)) :
    Port.step ⟨r.shift,before,seen⟩ c = ⟨r.exit1,before ++ [c.tdi],seen⟩ := by
  cases r <;> simp [Port.step, State.next, take, scanned, Register.shift, Register.exit1, leaves]

theorem Shifting.run {bits : List Bool} {cycles : List (TckCycle ι)} (shifting : Shifting bits cycles)
    (before : List Bool) (seen : List (Scan ι)) :
    Port.run ⟨r.shift,before,seen⟩ cycles = ⟨r.exit1,before ++ bits,seen⟩ := by
  induction shifting generalizing before with
  | last leaves => exact step_last leaves before seen
  | more stays _ ih => rw [run_cons, step_more stays, ih, List.append_assoc, List.singleton_append]

theorem Shifting.run_take {bits : List Bool} {cycles : List (TckCycle ι)}
    (shifting : Shifting bits cycles) (before : List Bool) (seen : List (Scan ι)) (n : Nat) :
    Port.run ⟨r.shift,before,seen⟩ (cycles.take n) =
      ⟨if n < cycles.length then r.shift else r.exit1,before ++ bits.take n,seen⟩ := by
  induction shifting generalizing before n with
  | last leaves =>
    cases n with
    | zero => simp
    | succ n => simpa using step_last leaves before seen
  | more stays _ ih =>
    cases n with
    | zero => simp
    | succ n =>
      rw [List.take_succ_cons, run_cons, step_more stays, ih]
      simp

theorem step_capture {c : TckCycle ι} (stays : c.tms = false) (before : List Bool)
    (seen : List (Scan ι)) : Port.step ⟨r.capture,before,seen⟩ c = ⟨r.shift,[],seen⟩ := by
  cases r <;> simp [Port.step, State.next, take, scanned, Register.capture, Register.shift, stays]

theorem scan_run {bits : List Bool} {cycles : List (TckCycle ι)} (shifting : Shifting bits cycles)
    (before : List Bool) (seen : List (Scan ι)) {shift exit update : TckCycle ι}
    (stays : shift.tms = false) (leaves : exit.tms = true) (ends : update.tms = false) :
    Port.run ⟨r.capture,before,seen⟩ (shift :: (cycles ++ [exit, update])) =
      ⟨.runTestIdle,bits,seen ++ [r.scan bits]⟩ := by
  rw [run_cons, step_capture stays, run_append, shifting.run, List.nil_append]
  cases r <;> simp [Port.step, State.next, take, scanned, Register.exit1, Register.scan, leaves, ends]

theorem select_dr {p : Port ι} (idle : p.state = .runTestIdle) {select capture : TckCycle ι}
    (first : select.tms = true) (second : capture.tms = false) :
    p.run [select, capture] = ⟨Register.data.capture,p.shifted,p.seen⟩ := by
  obtain ⟨state,shifted,seen⟩ := p
  cases idle
  simp [Port.step, State.next, take, scanned, first, second, Register.capture]

theorem select_ir {p : Port ι} (idle : p.state = .runTestIdle) {select other capture : TckCycle ι}
    (first : select.tms = true) (second : other.tms = true) (third : capture.tms = false) :
    p.run [select, other, capture] = ⟨Register.instruction.capture,p.shifted,p.seen⟩ := by
  obtain ⟨state,shifted,seen⟩ := p
  cases idle
  simp [Port.step, State.next, take, scanned, first, second, third, Register.capture]

theorem stays_idle {p : Port ι} (idle : p.state = .runTestIdle) {c : TckCycle ι} (low : c.tms = false) :
    p.step c = ⟨.runTestIdle,p.shifted,p.seen ++ [.idle c.clock]⟩ := by
  simp [Port.step, State.next, take, scanned, idle, low]

theorem run_state (p : Port ι) (cycles : List (TckCycle ι)) :
    (p.run cycles).state = (cycles.map TckCycle.tms).foldl State.next p.state := by
  induction cycles generalizing p with
  | nil => rfl
  | cons c cycles ih =>
    rw [run_cons, ih]
    rfl

/-- Five cycles with TMS set reset the controller from every state, and more do not hurt. -/
theorem reset_any (state : State) (n : Nat) :
    (List.replicate (n + 5) true).foldl State.next state = .testLogicReset := by
  have stays : (List.replicate n true).foldl State.next .testLogicReset = .testLogicReset := by
    induction n with
    | zero => rfl
    | succ n ih => exact ih
  have reaches : (List.replicate 5 true).foldl State.next state = .testLogicReset := by
    cases state <;> rfl
  rw [Nat.add_comm, List.replicate_add, List.foldl_append, reaches, stays]

end Tap
