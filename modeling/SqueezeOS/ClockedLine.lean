import Mathlib.Data.List.ReduceOption
import Mathlib.Data.Nat.Bitwise
import Mathlib.Tactic.Ring

/- Words sent over a clock line and a data line, highest bit first, and a receiver that samples the
   data line at the rising edges of the clock. -/
namespace ClockedLine

/-- What a sender does to the lines. It drives the data line unless that is an input. -/
inductive Signal where
  | direction (input : Bool)
  | data (level : Bool)
  | clock (level : Bool)
  deriving DecidableEq, Repr

structure Lines where
  output : Bool
  data : Bool
  clock : Bool
  deriving DecidableEq, Repr

def Lines.after (lines : Lines) : Signal → Lines
  | .direction input => { lines with output := !input }
  | .data level => { lines with data := level }
  | .clock level => { lines with clock := level }

/-- A single signal, or a transaction of its own whose clocks are not part of a word. -/
inductive Event where
  | signal (signal : Signal)
  | apart (signals : List Signal)

inductive Heard where
  | word (value : Nat)
  | apart
  | broken
  deriving DecidableEq, Repr

structure Receiver where
  lines : Lines
  bits : List (Option Bool)

def value (bits : List Bool) : Nat := bits.foldl (fun v bit => 2 * v + bit.toNat) 0

/-- A line that nobody drives has no level. -/
def word (bits : List (Option Bool)) : Heard :=
  if bits.all Option.isSome then .word (value bits.reduceOption) else .broken

def Lines.sample (lines : Lines) : Option Bool := if lines.output then some lines.data else none

section
variable (width : Nat)

def Receiver.signal (r : Receiver) (s : Signal) : Receiver × List Heard :=
  let lines := r.lines.after s
  if !r.lines.clock && lines.clock then
    let bits := r.bits ++ [r.lines.sample]
    if bits.length = width then (⟨lines, []⟩, [word bits]) else (⟨lines, bits⟩, [])
  else (⟨lines, r.bits⟩, [])

def Receiver.event (r : Receiver) : Event → Receiver × List Heard
  | .signal s => r.signal width s
  | .apart signals =>
      (⟨signals.foldl Lines.after r.lines, []⟩, if r.bits = [] then [.apart] else [.broken, .apart])

def Receiver.run (r : Receiver) : List Event → Receiver × List Heard
  | [] => (r, [])
  | e :: events =>
      let (r, heard) := r.event width e
      let (last, more) := r.run events
      (last, heard ++ more)

def Receiver.Idle (r : Receiver) : Prop := r.lines.clock = false ∧ r.bits = []

/-- What a receiver hears of some events when they find it between two words, and where it is
    between two words again. -/
def Tells (events : List Event) (heard : List Heard) : Prop :=
  ∀ r : Receiver, r.Idle → ∃ last, r.run width events = (last, heard) ∧ last.Idle

end

section
variable {width : Nat}

theorem run_append (r : Receiver) (first second : List Event) :
    r.run width (first ++ second) = ((r.run width first).1.run width second |>.1,
      (r.run width first).2 ++ ((r.run width first).1.run width second).2) := by
  induction first generalizing r with
  | nil => rfl
  | cons e first ih => simp only [List.cons_append, Receiver.run, ih, List.append_assoc]

theorem tells_nil : Tells width [] [] := fun r idle => ⟨r,rfl,idle⟩

theorem Tells.append {first second : List Event} {heard more : List Heard}
    (one : Tells width first heard) (two : Tells width second more) :
    Tells width (first ++ second) (heard ++ more) := by
  intro r idle
  obtain ⟨middle,ran,idle⟩ := one r idle
  obtain ⟨last,ran',idle⟩ := two middle idle
  refine ⟨last,?_,idle⟩
  rw [run_append, ran, ran']

end

def pulse : List Event := [.signal (.clock true), .signal (.clock false)]

def shiftOut (vector : Nat) : Nat → Nat → List Event
  | 0, _ => []
  | count + 1, mask =>
      .signal (.data (vector &&& mask != 0)) :: (pulse ++ shiftOut vector count (mask >>> 1))

def highestFirst (vector : Nat) : Nat → List Bool
  | 0 => []
  | n + 1 => vector.testBit n :: highestFirst vector n

theorem foldl_highestFirst (vector n v : Nat) :
    (highestFirst vector n).foldl (fun v bit => 2 * v + bit.toNat) v =
      v * 2 ^ n + vector % 2 ^ n := by
  induction n generalizing v with
  | zero => simp [highestFirst, Nat.mod_one]
  | succ n ih =>
    rw [highestFirst, List.foldl_cons, ih, Nat.toNat_testBit, Nat.mod_pow_succ, Nat.pow_succ]
    ring

theorem value_highestFirst (vector n : Nat) : value (highestFirst vector n) = vector % 2 ^ n := by
  rw [value, foldl_highestFirst, Nat.zero_mul, Nat.zero_add]

theorem word_driven (bits : List Bool) : word (bits.map some) = .word (value bits) := by
  simp [word, List.reduceOption]

theorem mask_bit (vector n : Nat) : (vector &&& 2 ^ n != 0) = vector.testBit n := by
  rw [Nat.and_two_pow]
  cases vector.testBit n <;> simp

section
variable (width vector n : Nat) {r : Receiver}

theorem bit_run (output : r.lines.output) (low : r.lines.clock = false) (level : Bool) :
    r.run width (.signal (.data level) :: pulse) =
      if r.bits.length + 1 = width then
        (⟨{ r.lines with data := level }, []⟩, [word (r.bits ++ [some level])])
      else (⟨{ r.lines with data := level }, r.bits ++ [some level]⟩, []) := by
  obtain ⟨⟨_,data,_⟩,bits⟩ := r
  cases output
  cases low
  by_cases full : bits.length + 1 = width
  · simp [pulse, Receiver.run, Receiver.event, Receiver.signal, Lines.after, Lines.sample, full]
  · simp [pulse, Receiver.run, Receiver.event, Receiver.signal, Lines.after, Lines.sample, full]

theorem shiftOut_run (output : r.lines.output) (low : r.lines.clock = false)
    (missing : r.bits.length + (n + 1) = width) : ∃ last, last.Idle ∧
    r.run width (shiftOut vector (n + 1) (2 ^ n)) =
      (last, [word (r.bits ++ (highestFirst vector (n + 1)).map some)]) := by
  induction n generalizing r with
  | zero =>
    have first := bit_run width output low (vector.testBit 0)
    rw [if_pos (by omega)] at first
    refine ⟨⟨{ r.lines with data := vector.testBit 0 },[]⟩,⟨low,rfl⟩,?_⟩
    rw [shiftOut, mask_bit]
    exact first
  | succ n ih =>
    have first := bit_run width output low (vector.testBit (n + 1))
    rw [if_neg (by omega)] at first
    have halved : 2 ^ (n + 1) >>> 1 = 2 ^ n := by
      rw [Nat.shiftRight_eq_div_pow, Nat.pow_succ]
      omega
    obtain ⟨last,idle,others⟩ := ih
      (r := ⟨{ r.lines with data := vector.testBit (n + 1) },r.bits ++ [some (vector.testBit (n + 1))]⟩)
      output low (by rw [List.length_append, List.length_singleton]; omega)
    refine ⟨last,idle,?_⟩
    rw [shiftOut, mask_bit, halved, ← List.cons_append, run_append, first, others, highestFirst,
      List.map_cons, List.append_assoc]
    rfl

end

/-- A word is heard as it is sent, cut to the width. -/
theorem tells_shiftOut (vector n : Nat) : Tells (n + 1)
    (.signal (.direction false) :: shiftOut vector (n + 1) (2 ^ n)) [.word (vector % 2 ^ (n + 1))] := by
  rintro ⟨lines,_⟩ ⟨low,rfl⟩
  obtain ⟨last,idle,ran⟩ := shiftOut_run (n + 1) vector n
    (r := ⟨{ lines with output := true },[]⟩) rfl low (Nat.zero_add _)
  refine ⟨last,?_,idle⟩
  rw [List.nil_append, word_driven, value_highestFirst] at ran
  rw [← ran]
  simp [Receiver.run, Receiver.event, Receiver.signal, Lines.after]

/-- Whatever went before, a transaction of its own that leaves the clock low leaves the receiver
    between two words. -/
theorem idle_apart {width : Nat} (r : Receiver) (events : List Event) (signals : List Signal)
    (low : ∀ lines, (signals.foldl Lines.after lines).clock = false) :
    (r.run width (events ++ [.apart signals])).1.Idle := by
  rw [run_append]
  exact ⟨low _,rfl⟩

theorem tells_apart {width : Nat} {signals : List Signal}
    (low : ∀ lines, (signals.foldl Lines.after lines).clock = false) :
    Tells width [.apart signals] [.apart] := by
  rintro r ⟨_,empty⟩
  refine ⟨⟨signals.foldl Lines.after r.lines, []⟩,?_,low r.lines,rfl⟩
  simp [Receiver.run, Receiver.event, empty]

end ClockedLine
