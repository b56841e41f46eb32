import SqueezeOS.Msp430.LowLevelFunc

/- What the port of the chip takes in when the host calls the functions of LowLevelFuncSBW.c and
   the scans of JTAGfuncSBW.c, and what these return. -/
namespace Sbw
open Tap SpyBiWire

section
variable (start : Chip) (target : List Wire → Bool)

def port (h : Host) : Port (List Bool) := (start.run h.wire).port

structure Joined (h : Host) : Prop where
  output : h.input = false
  rests : (start.run h.wire).Rests

structure Passes (h t : Host) (cycles : List (TckCycle (List Bool))) : Prop where
  joined : Joined start t
  port : port start t = (port start h).run cycles
  answer : ∃ wire, t.sbwtdio = target wire ∧ (start.run wire).port = Sbw.port start t

variable {start target} {h t u : Host}

theorem Advances.passes {tms tdi : Bool} {held levels : List Bool}
    (advances : Advances target h t tms held levels tdi) (joined : Joined start h) :
    Passes start target h t [⟨tms,tdi,heard tms held levels tdi⟩] := by
  have whole : start.run t.wire = ⟨true,t.sbwtdio,.tms,tms,tdi,heard tms held levels tdi,
      (port start h).step ⟨tms,tdi,heard tms held levels tdi⟩⟩ := by
    rw [advances.wire, SpyBiWire.run_append, run_cycle joined.rests, port]
  refine ⟨⟨advances.output,?_⟩,?_,_,advances.back,?_⟩
  · rw [whole]
    exact ⟨rfl,rfl⟩
  · rw [port, whole]
    rfl
  · rw [port, whole, SpyBiWire.run_append, run_asked joined.rests]
    rfl

theorem Passes.trans {first later : List (TckCycle (List Bool))} (one : Passes start target h t first)
    (other : Passes start target t u later) : Passes start target h u (first ++ later) where
  joined := other.joined
  port := by rw [other.port, one.port, Tap.run_append]
  answer := other.answer

theorem slots_passes (target : List Wire → Bool) (joined : Joined start h) (tms tdi read : Bool) :
    Passes start target h (slots target tms tdi read h) [⟨tms,tdi,heard tms [] [] tdi⟩] :=
  (slots_advances target joined.output tms tdi read).passes joined

def slot (tms tdi : Bool) : TckCycle (List Bool) := ⟨tms,tdi,heard tms [] [] tdi⟩

def msbFirst (msb : Word) : Nat → Word → List Bool
  | 0, _ => []
  | n + 1, data => (data &&& msb != 0) :: msbFirst msb n (data <<< 1)

def shiftCycles : List Bool → List (TckCycle (List Bool))
  | [] => []
  | [tdi] => [slot true tdi]
  | tdi :: bits => slot false tdi :: shiftCycles bits

theorem shiftCycles_shifting (tdi : Bool) (bits : List Bool) :
    Shifting (tdi :: bits) (shiftCycles (tdi :: bits)) := by
  induction bits generalizing tdi with
  | nil => exact .last (c := slot true tdi) rfl
  | cons next bits ih => exact .more (c := slot false tdi) rfl (ih next)

def collect (tdoWord : Word) : List Bool → Word
  | [] => tdoWord
  | [tdo] => bif tdo then tdoWord + 1 else tdoWord
  | tdo :: rest => collect ((bif tdo then tdoWord + 1 else tdoWord) <<< 1) rest

theorem collect_cons (tdoWord : Word) (tdo next : Bool) (rest : List Bool) :
    collect tdoWord (tdo :: next :: rest) =
      collect ((bif tdo then tdoWord + 1 else tdoWord) <<< 1) (next :: rest) := rfl

def Answers (start : Chip) (target : List Wire → Bool) (h : Host)
    (cycles : List (TckCycle (List Bool))) (answers : List Bool) : Prop :=
  answers.length = cycles.length ∧ ∀ k tdo, answers[k]? = some tdo →
    ∃ wire, tdo = target wire ∧ (start.run wire).port = (port start h).run (cycles.take (k + 1))

theorem shiftLoop_step (target : List Wire → Bool) (msb data tdoWord : Word) (i : Nat) (h : Host) :
    shiftLoop target msb (i + 1) data tdoWord h =
      let t := slots target (decide (i = 0)) (data &&& msb != 0) true h
      let tdoWord := bif t.sbwtdio then tdoWord + 1 else tdoWord
      shiftLoop target msb i (data <<< 1) (if 0 < i then tdoWord <<< 1 else tdoWord) t := by
  have turn : (if i = 0 then
      if data &&& msb = 0 then tmshTdilTdord target h else tmshTdihTdord target h
      else if data &&& msb = 0 then tmslTdilTdord target h else tmslTdihTdord target h) =
      slots target (decide (i = 0)) (data &&& msb != 0) true h := by
    by_cases last : i = 0 <;> by_cases low : data &&& msb = 0
    · rw [if_pos last, if_pos low, low, decide_eq_true last]
      rfl
    · rw [if_pos last, if_neg low, bne_iff_ne.mpr low, decide_eq_true last]
      rfl
    · rw [if_neg last, if_pos low, low, decide_eq_false last]
      rfl
    · rw [if_neg last, if_neg low, bne_iff_ne.mpr low, decide_eq_false last]
      rfl
  rw [shiftLoop, turn]
  simp only [slots_tdoBit, slots_get, Bool.and_self, cond_eq_ite]

theorem Answers.single {c : TckCycle (List Bool)} (passes : Passes start target h t [c]) :
    Answers start target h [c] [t.sbwtdio] := by
  obtain ⟨wire,answer,same⟩ := passes.answer
  refine ⟨rfl,?_⟩
  intro k tdo at_k
  match k with
  | 0 =>
    obtain rfl : t.sbwtdio = tdo := Option.some.inj at_k
    exact ⟨wire,answer,same.trans passes.port⟩
  | k + 1 => cases at_k

theorem Answers.cons {c : TckCycle (List Bool)} {cycles : List (TckCycle (List Bool))}
    {answers : List Bool} (passes : Passes start target h t [c])
    (later : Answers start target t cycles answers) :
    Answers start target h (c :: cycles) (t.sbwtdio :: answers) := by
  obtain ⟨count,each⟩ := later
  refine ⟨congrArg (· + 1) count,?_⟩
  intro k tdo at_k
  match k with
  | 0 => exact (Answers.single passes).2 0 tdo at_k
  | k + 1 =>
    obtain ⟨wire,answer,same⟩ := each k tdo at_k
    refine ⟨wire,answer,?_⟩
    rw [same, passes.port]
    rfl

theorem shiftLoop_passes (target : List Wire → Bool) (msb : Word) (i : Nat) (data tdoWord : Word)
    (joined : Joined start h) :
    ∃ answers, Answers start target h (shiftCycles (msbFirst msb (i + 1) data)) answers ∧
      (shiftLoop target msb (i + 1) data tdoWord h).1 = collect tdoWord answers ∧
      (shiftLoop target msb (i + 1) data tdoWord h).2.tclkSaved = h.tclkSaved ∧
      Passes start target h (shiftLoop target msb (i + 1) data tdoWord h).2
        (shiftCycles (msbFirst msb (i + 1) data)) := by
  induction i generalizing h data tdoWord with
  | zero =>
    have passes := slots_passes target joined true (data &&& msb != 0) true
    refine ⟨_,Answers.single passes,?_,?_,?_⟩
    · rw [shiftLoop_step]
      rfl
    · rw [shiftLoop_step]
      exact slots_tclkSaved _ _ _ _ _
    · rw [shiftLoop_step]
      exact passes
  | succ i ih =>
    have passes := slots_passes target joined false (data &&& msb != 0) true
    have shape : shiftCycles (msbFirst msb (i + 1 + 1) data) =
        slot false (data &&& msb != 0) :: shiftCycles (msbFirst msb (i + 1) (data <<< 1)) := rfl
    have step : shiftLoop target msb (i + 1 + 1) data tdoWord h =
        shiftLoop target msb (i + 1) (data <<< 1)
          ((bif (slots target false (data &&& msb != 0) true h).sbwtdio then tdoWord + 1
            else tdoWord) <<< 1) (slots target false (data &&& msb != 0) true h) := by
      rw [shiftLoop_step, decide_eq_false (Nat.succ_ne_zero i)]
      simp only [Nat.zero_lt_succ, if_true]
    obtain ⟨answers,answered,word,kept,later⟩ := ih (data <<< 1)
      ((bif (slots target false (data &&& msb != 0) true h).sbwtdio then tdoWord + 1
        else tdoWord) <<< 1) passes.joined
    rw [shape, step]
    refine ⟨_,answered.cons passes,?_,?_,?_⟩
    · obtain ⟨first,rest,rfl⟩ : ∃ first rest, answers = first :: rest := by
        apply List.exists_cons_of_length_pos
        rw [answered.1]
        cases i <;> simp [msbFirst, shiftCycles]
      rw [collect_cons, word]
    · exact kept.trans (slots_tclkSaved _ _ _ _ _)
    · exact passes.trans later

theorem shiftCycles_length (tdi : Bool) (bits : List Bool) :
    (shiftCycles (tdi :: bits)).length = (tdi :: bits).length := by
  induction bits generalizing tdi with
  | nil => rfl
  | cons next bits ih => exact congrArg (· + 1) (ih next)

/-- Every answer is the one that the chip gives with the first bits in its register, and with
    `seen` before this scan. -/
def Reads (start : Chip) (target : List Wire → Bool) (r : Register)
    (seen : List (Scan (List Bool))) (bits answers : List Bool) : Prop :=
  answers.length = bits.length ∧ ∀ k tdo, answers[k]? = some tdo → ∃ wire, tdo = target wire ∧
    (start.run wire).port =
      ⟨if k + 1 < bits.length then r.shift else r.exit1,bits.take (k + 1),seen⟩

theorem Answers.reads {r : Register} {tdi : Bool} {bits answers : List Bool}
    {seen : List (Scan (List Bool))} (shift : port start h = ⟨r.shift,[],seen⟩)
    (answered : Answers start target h (shiftCycles (tdi :: bits)) answers) :
    Reads start target r seen (tdi :: bits) answers := by
  refine ⟨answered.1.trans (shiftCycles_length tdi bits),?_⟩
  intro k tdo at_k
  obtain ⟨wire,answer,same⟩ := answered.2 k tdo at_k
  rw [shift, (shiftCycles_shifting tdi bits).run_take, shiftCycles_length, List.nil_append] at same
  exact ⟨wire,answer,same⟩

structure Scanned (start : Chip) (target : List Wire → Bool) (h t : Host)
    (scan : Scan (List Bool)) : Prop where
  joined : Joined start t
  idle : (port start t).state = .runTestIdle
  seen : (port start t).seen = (port start h).seen ++ [scan]
  answer : ∃ wire, t.sbwtdio = target wire ∧ (start.run wire).port.state = .runTestIdle

def Format.msbFirst (format : Format) (data : Word) : List Bool :=
  Sbw.msbFirst format.msb format.bits data

theorem slots_level (target : List Wire → Bool) (tms : Bool) (h : Host) (high : Bool) :
    (if high then slots target tms true false h else slots target tms false false h) =
      slots target tms high false h := by
  cases high <;> rfl

def update (target : List Wire → Bool) (h : Host) : Host :=
  slots target false ((tmshTdih target h).tclkSaved && (tmshTdih target h).sbwtdio) false
    (tmshTdih target h)

theorem shift_eq (target : List Wire → Bool) (format : Format) (data : Word) (h : Host) :
    shift target format data h = ((shiftLoop target format.msb format.bits data 0 h).1,
      update target (shiftLoop target format.msb format.bits data 0 h).2) := by
  have last (u : Host) : (if (tmshTdih target u).tclkSaved && sbwtdioGet target (tmshTdih target u)
      then tmslTdih target (tmshTdih target u) else tmslTdil target (tmshTdih target u)) =
      update target u := by
    have get : sbwtdioGet target (tmshTdih target u) = (tmshTdih target u).sbwtdio :=
      slots_get target _ _ _ _
    rw [get]
    exact slots_level target false _ _
  rw [shift]
  generalize shiftLoop target format.msb format.bits data 0 h = out
  exact congrArg (Prod.mk out.1) (last out.2)

theorem update_passes (target : List Wire → Bool) (joined : Joined start h) : ∃ level,
    Passes start target h (update target h) [slot true true, slot false level] := by
  have first := slots_passes target joined true true false
  exact ⟨_,first.trans (slots_passes target first.joined false _ false)⟩

theorem shift_scans {r : Register} {before : List Bool} {seen : List (Scan (List Bool))}
    (joined : Joined start h) (capture : port start h = ⟨r.capture,before,seen⟩) (format : Format)
    (data : Word) (out : Word × Host) (called : shift target format data (tmslTdih target h) = out) :
    (∃ answers, Reads start target r seen (format.msbFirst data) answers ∧
        out.1 = collect 0 answers) ∧
      out.2.tclkSaved = h.tclkSaved ∧ Joined start out.2 ∧
      port start out.2 = ⟨.runTestIdle,format.msbFirst data,seen ++ [r.scan (format.msbFirst data)]⟩ ∧
      ∃ wire, out.2.sbwtdio = target wire ∧ (start.run wire).port.state = .runTestIdle := by
  obtain ⟨i,bits⟩ : ∃ i, format.bits = i + 1 := by cases format <;> exact ⟨_,rfl⟩
  have enters := slots_passes target joined false true false
  have shifting : port start (tmslTdih target h) = ⟨r.shift,[],seen⟩ := by
    change port start (slots target false true false h) = _
    rw [enters.port, capture]
    exact step_capture rfl before seen
  obtain ⟨answers,answered,word,kept,loop⟩ :=
    shiftLoop_passes target format.msb i data 0 enters.joined
  obtain ⟨level,last⟩ := update_passes target loop.joined
  have whole : format.msbFirst data = (data &&& format.msb != 0) ::
      msbFirst format.msb i (data <<< 1) := by
    rw [Format.msbFirst, bits]
    rfl
  rw [shift_eq, bits] at called
  subst called
  have passes := (enters.trans loop).trans last
  have state : port start (update target (shiftLoop target format.msb (i + 1) data 0
      (slots target false true false h)).2) =
      ⟨.runTestIdle,format.msbFirst data,seen ++ [r.scan (format.msbFirst data)]⟩ := by
    rw [passes.port, capture, whole]
    exact scan_run (shiftCycles_shifting _ _) before seen rfl rfl rfl
  refine ⟨⟨answers,?_,word⟩,?_,last.joined,state,?_⟩
  · rw [whole]
    exact Answers.reads shifting answered
  · refine Eq.trans ?_ (kept.trans (slots_tclkSaved _ _ _ _ _))
    exact (slots_tclkSaved _ _ _ _ _).trans (slots_tclkSaved _ _ _ _ _)
  · obtain ⟨wire,answer,same⟩ := last.answer
    exact ⟨wire,answer,by rw [same]; exact congrArg Port.state state⟩

theorem scanned_of_port {bits : List Bool} {seen : List (Scan (List Bool))}
    {scan : Scan (List Bool)} (same : (port start h).seen = seen) (joined : Joined start t)
    (state : port start t = ⟨.runTestIdle,bits,seen ++ [scan]⟩)
    (answer : ∃ wire, t.sbwtdio = target wire ∧ (start.run wire).port.state = .runTestIdle) :
    Scanned start target h t scan where
  joined := joined
  idle := congrArg Port.state state
  seen := by rw [state, same]
  answer := answer

structure Exchanged (start : Chip) (target : List Wire → Bool) (h : Host) (out : Word × Host)
    (r : Register) (bits : List Bool) : Prop where
  scanned : Scanned start target h out.2 (r.scan bits)
  saved : out.2.tclkSaved = h.tclkSaved
  word : ∃ answers, Reads start target r (port start h).seen bits answers ∧
    out.1 = collect 0 answers

theorem select_eq (joined : Joined start h) :
    (if h.tclkSaved && sbwtdioGet target h then tmshTdih target h else tmshTdil target h) =
      slots target true (h.tclkSaved && h.sbwtdio) false h := by
  have get : sbwtdioGet target h = h.sbwtdio := by simp [sbwtdioGet, joined.output]
  rw [get]
  exact slots_level target true h _

theorem drShift16_exchanged (target : List Wire → Bool) (joined : Joined start h)
    (idle : (port start h).state = .runTestIdle) (data : Word) :
    Exchanged start target h (drShift16 target data h) .data (Format.word.msbFirst data) := by
  have select := slots_passes target joined true (h.tclkSaved && h.sbwtdio) false
  have capture := select.trans (slots_passes target select.joined false true false)
  have state := capture.port.trans (select_dr idle rfl rfl)
  rw [drShift16, select_eq joined]
  obtain ⟨word,saved,ready,whole,answer⟩ := shift_scans capture.joined state .word data _ rfl
  refine ⟨scanned_of_port rfl ready whole answer,?_,word⟩
  exact saved.trans ((slots_tclkSaved _ _ _ _ _).trans (slots_tclkSaved _ _ _ _ _))

theorem irShift_exchanged (target : List Wire → Bool) (joined : Joined start h)
    (idle : (port start h).state = .runTestIdle) (instruction : BitVec 8) :
    Exchanged start target h (irShift target instruction h) .instruction
      (Format.byte.msbFirst (instruction.setWidth 16)) := by
  have select := slots_passes target joined true (h.tclkSaved && h.sbwtdio) false
  have other := select.trans (slots_passes target select.joined true true false)
  have capture := other.trans (slots_passes target other.joined false true false)
  have state := capture.port.trans (select_ir idle rfl rfl rfl)
  rw [irShift, select_eq joined]
  obtain ⟨word,saved,ready,whole,answer⟩ :=
    shift_scans capture.joined state .byte (instruction.setWidth 16) _ rfl
  refine ⟨scanned_of_port rfl ready whole answer,?_,word⟩
  refine saved.trans ((slots_tclkSaved _ _ _ _ _).trans ?_)
  exact (slots_tclkSaved _ _ _ _ _).trans (slots_tclkSaved _ _ _ _ _)

theorem Advances.scanned {held levels : List Bool} {tdi : Bool}
    (advances : Advances target h t false held levels tdi) (joined : Joined start h)
    (idle : (port start h).state = .runTestIdle) :
    Scanned start target h t (.idle (heard false held levels tdi)) := by
  have passes := advances.passes joined
  have state := passes.port.trans (stays_idle idle rfl)
  obtain ⟨wire,answer,same⟩ := passes.answer
  exact scanned_of_port rfl passes.joined state ⟨wire,answer,by rw [same, state]⟩

end

end Sbw
