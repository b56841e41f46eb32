import SqueezeOS.SpyBiWire
import Mathlib.Data.List.Forall2

/- LowLevelFuncSBW.c and the scans of JTAGfuncSBW.c on the pins of the board. SBWTCK and SBWTDIO are
   pins of one port, GPIO4, and mxc_set_gpio_dataout writes a port back as it has read it. -/
namespace Sbw
open Tap SpyBiWire

/-- `sbwtdio` and `sbwtck` are their bits of GPIO_DR, `input` the direction of SBWTDIO. -/
structure Host where
  sbwtdio : Bool
  sbwtck : Bool
  input : Bool
  pump : Bool
  tclkSaved : Bool
  tdoBit : Bool
  wire : List Wire

section
-- What the chip puts on SBWTDIO, by what the wires have done before.
variable (target : List Wire → Bool)

/-- GPIO_DR reads as the pin where it is an input, as it was written where it is an output. -/
def sbwtdioGet (h : Host) : Bool := if h.input then target h.wire else h.sbwtdio

/-- With SBWTCK the bit of SBWTDIO is written as it reads. -/
def setSbwtck (level : Bool) (h : Host) : Host :=
  { h with sbwtdio := sbwtdioGet target h, sbwtck := level, wire := h.wire ++ [.tck level] }

def sbwtckClr (h : Host) : Host := setSbwtck target false h

def sbwtckSet (h : Host) : Host := setSbwtck target true h

def setSbwtdio (level : Bool) (h : Host) : Host :=
  { h with sbwtdio := level, wire := if h.input then h.wire else h.wire ++ [.tdio level] }

/-- A turn of the charge pump, which is on another port. -/
def delayASmidge (h : Host) : Host := { h with pump := !h.pump }

def sbwtdioClr (h : Host) : Host := setSbwtdio false h

def sbwtdioSet (h : Host) : Host := delayASmidge (setSbwtdio true h)

def sbwtdioInput (h : Host) : Host := { h with input := true, wire := h.wire ++ [.release] }

def sbwtdioOutput (h : Host) : Host :=
  { h with input := false, wire := h.wire ++ [.drive h.sbwtdio] }

def tmsh (h : Host) : Host := sbwtckSet target (sbwtckClr target (sbwtdioSet h))

def tmsl (h : Host) : Host := sbwtckSet target (sbwtckClr target (sbwtdioClr h))

def tmsldh (h : Host) : Host :=
  sbwtckSet target (sbwtdioSet (sbwtckClr target (sbwtdioClr h)))

def tdih (h : Host) : Host := sbwtckSet target (sbwtckClr target (sbwtdioSet h))

def tdil (h : Host) : Host := sbwtckSet target (sbwtckClr target (sbwtdioClr h))

def tdosbw (h : Host) : Host :=
  sbwtdioOutput (sbwtckSet target (sbwtckClr target (sbwtdioInput h)))

def tdoRd (h : Host) : Host :=
  let h := delayASmidge (sbwtckClr target (sbwtdioInput h))
  sbwtdioOutput (sbwtckSet target { h with tdoBit := sbwtdioGet target h })

def slots (tms tdi read : Bool) (h : Host) : Host :=
  let h := bif tms then tmsh target h else tmsl target h
  let h := bif tdi then tdih target h else tdil target h
  bif read then tdoRd target h else tdosbw target h

def tmslTdil (h : Host) : Host := slots target false false false h

def tmshTdil (h : Host) : Host := slots target true false false h

def tmslTdih (h : Host) : Host := slots target false true false h

def tmshTdih (h : Host) : Host := slots target true true false h

def tmslTdihTdord (h : Host) : Host := slots target false true true h

def tmslTdilTdord (h : Host) : Host := slots target false false true h

def tmshTdihTdord (h : Host) : Host := slots target true true true h

def tmshTdilTdord (h : Host) : Host := slots target true false true h

def clrTclk (h : Host) : Host :=
  let h := if h.tclkSaved && sbwtdioGet target h then tmsldh target h else tmsl target h
  let h := tdosbw target (tdil target (sbwtdioClr h))
  { h with tclkSaved := false }

def setTclk (h : Host) : Host :=
  let h := if h.tclkSaved && sbwtdioGet target h then tmsldh target h else tmsl target h
  let h := tdosbw target (tdih target (sbwtdioSet h))
  { h with tclkSaved := true }

def strobes : Nat → Host → Host
  | 0, h => h
  | n + 1, h => strobes n (sbwtdioSet (delayASmidge (sbwtdioClr h)))

def tclkStrobes (amount : Nat) (h : Host) : Host :=
  let h := if h.tclkSaved && sbwtdioGet target h then tmsldh target h else tmsl target h
  let h := tdosbw target (tdih target (strobes amount h))
  { h with tclkSaved := sbwtdioGet target h }

abbrev Word := BitVec 16

def shiftLoop (msb : Word) : Nat → Word → Word → Host → Word × Host
  | 0, _, tdoWord, h => (tdoWord, h)
  | i + 1, data, tdoWord, h =>
      let h :=
        if i = 0 then
          if data &&& msb = 0 then tmshTdilTdord target h else tmshTdihTdord target h
        else
          if data &&& msb = 0 then tmslTdilTdord target h else tmslTdihTdord target h
      let tdoWord := if h.tdoBit && sbwtdioGet target h then tdoWord + 1 else tdoWord
      shiftLoop msb i (data <<< 1) (if 0 < i then tdoWord <<< 1 else tdoWord) h

inductive Format where
  | byte
  | word

def Format.bits : Format → Nat
  | .byte => 8
  | .word => 16

def Format.msb : Format → Word
  | .byte => 0x80
  | .word => 0x8000

def shift (format : Format) (data : Word) (h : Host) : Word × Host :=
  let (tdoWord, h) := shiftLoop target format.msb format.bits data 0 h
  let h := tmshTdih target h
  (tdoWord, if h.tclkSaved && sbwtdioGet target h then tmslTdih target h else tmslTdil target h)

def drShift16 (data : Word) (h : Host) : Word × Host :=
  let h := if h.tclkSaved && sbwtdioGet target h then tmshTdih target h else tmshTdil target h
  shift target .word data (tmslTdih target (tmslTdih target h))

def irShift (instruction : BitVec 8) (h : Host) : Word × Host :=
  let h := if h.tclkSaved && sbwtdioGet target h then tmshTdih target h else tmshTdil target h
  let h := tmslTdih target (tmslTdih target (tmshTdih target h))
  shift target .byte (instruction.setWidth 16) h

def resetLoop : Nat → Host → Host
  | 0, h => h
  | i + 1, h => resetLoop i (tmshTdih target h)

def resetTap (h : Host) : Host :=
  let h := tmslTdih target (resetLoop target 6 h)
  let h := tmshTdih target (tmslTdih target (tmshTdih target (tmslTdih target (tmshTdih target h))))
  tmslTdih target (tmshTdih target h)

/-- The host is through one cycle of the port. What the chip drives in the slot for TDO is in
    GPIO_DR behind it. -/
structure Advances (h t : Host) (tms : Bool) (held levels : List Bool) (tdi : Bool) : Prop where
  wire : t.wire = h.wire ++ cycleWire tms held levels tdi t.sbwtdio
  back : t.sbwtdio = target (h.wire ++ asked tms held levels tdi)
  output : t.input = false
  high : t.sbwtck = true

variable {h : Host}

theorem slots_advances (output : h.input = false) (tms tdi read : Bool) :
    Advances target h (slots target tms tdi read h) tms [] [] tdi := by
  obtain ⟨sbwtdio,sbwtck,input,pump,tclkSaved,tdoBit,wire⟩ := h
  cases output
  cases tms <;> cases tdi <;> cases read <;> constructor <;>
    simp [slots, tmsh, tmsl, tdih, tdil, tdoRd, tdosbw, sbwtckSet, sbwtckClr, setSbwtck,
      sbwtdioSet, sbwtdioClr, setSbwtdio, delayASmidge, sbwtdioInput, sbwtdioOutput, sbwtdioGet,
      cycleWire, asked, line]

@[simp] theorem slots_tclkSaved (tms tdi read : Bool) (h : Host) :
    (slots target tms tdi read h).tclkSaved = h.tclkSaved := by
  cases tms <;> cases tdi <;> cases read <;> rfl

theorem slots_tdoBit (tms tdi : Bool) (h : Host) :
    (slots target tms tdi true h).tdoBit = (slots target tms tdi true h).sbwtdio := by
  cases tms <;> cases tdi <;> rfl

@[simp] theorem slots_get (tms tdi read : Bool) (h : Host) :
    sbwtdioGet target (slots target tms tdi read h) = (slots target tms tdi read h).sbwtdio := by
  cases tms <;> cases tdi <;> cases read <;> rfl

def held (high : Bool) : List Bool := bif high then [true] else []

theorem clrTclk_advances (output : h.input = false) :
    Advances target h (clrTclk target h) false (held (h.tclkSaved && h.sbwtdio)) [false] false := by
  obtain ⟨sbwtdio,sbwtck,input,pump,tclkSaved,tdoBit,wire⟩ := h
  cases output
  cases tclkSaved <;> cases sbwtdio <;> constructor <;>
    simp [clrTclk, held, tmsl, tmsldh, tdil, tdosbw, sbwtckSet, sbwtckClr, setSbwtck,
      sbwtdioSet, sbwtdioClr, setSbwtdio, delayASmidge, sbwtdioInput, sbwtdioOutput, sbwtdioGet,
      cycleWire, asked, line]

theorem setTclk_advances (output : h.input = false) :
    Advances target h (setTclk target h) false (held (h.tclkSaved && h.sbwtdio)) [true] true := by
  obtain ⟨sbwtdio,sbwtck,input,pump,tclkSaved,tdoBit,wire⟩ := h
  cases output
  cases tclkSaved <;> cases sbwtdio <;> constructor <;>
    simp [setTclk, held, tmsl, tmsldh, tdih, tdosbw, sbwtckSet, sbwtckClr, setSbwtck,
      sbwtdioSet, sbwtdioClr, setSbwtdio, delayASmidge, sbwtdioInput, sbwtdioOutput, sbwtdioGet,
      cycleWire, asked, line]

def pulses (n : Nat) : List Bool := (List.replicate n [false, true]).flatten

theorem strobes_eq (n : Nat) (output : h.input = false) :
    strobes n h = { h with
      sbwtdio := if n = 0 then h.sbwtdio else true
      wire := h.wire ++ line (pulses n) } := by
  induction n generalizing h with
  | zero => simp [strobes, pulses, line]
  | succ n ih =>
    obtain ⟨sbwtdio,sbwtck,input,pump,tclkSaved,tdoBit,wire⟩ := h
    cases output
    rw [strobes, ih rfl]
    simp [sbwtdioSet, sbwtdioClr, setSbwtdio, delayASmidge, pulses, line, List.replicate_succ]

theorem tclkStrobes_advances (n : Nat) (output : h.input = false) :
    Advances target h (tclkStrobes target n h) false (held (h.tclkSaved && h.sbwtdio)) (pulses n)
      true := by
  obtain ⟨sbwtdio,sbwtck,input,pump,tclkSaved,tdoBit,wire⟩ := h
  cases output
  cases tclkSaved <;> cases sbwtdio <;> constructor <;>
    simp [tclkStrobes, strobes_eq, held, tmsl, tmsldh, tdih, tdosbw, sbwtckSet, sbwtckClr, setSbwtck,
      sbwtdioSet, sbwtdioClr, setSbwtdio, delayASmidge, sbwtdioInput, sbwtdioOutput, sbwtdioGet,
      cycleWire, asked, line]

end

end Sbw
