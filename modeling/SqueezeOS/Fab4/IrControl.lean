import SqueezeOS.Fab4.Ir
import SqueezeOS.StepRuns

/- The register CONTROL of the infrared controller, which the two proximity settings and the
   commands to the blaster share. -/
namespace Fab4Ir
open Guarded KernelStrings StepRuns

inductive Write where
  | proximityControl (buf : List UInt8) (ret : Int)
  | proximityDutyCycle (buf : List UInt8) (ret : Int)
  | irBlaster (buf : List UInt8) (outVal inStr : Bool) (ret : Int)
  deriving DecidableEq, Repr

def Write.access : Write → Access
  | .proximityControl buf ret => .storeProximityControl buf ret
  | .proximityDutyCycle buf ret => .storeProximityDutyCycle buf ret
  | .irBlaster buf outVal inStr ret => .irBlaster buf outVal inStr ret

def Commands : Write → Prop
  | .irBlaster buf _ _ _ => buf.length ≤ 2 ∧ simpleStrtoul buf 10 ≤ 1
  | _ => False

def step (s : Driver Controller) (a : Write) : Option (Driver Controller) :=
  match access a.access s with
  | some (.stored _, t) => some t
  | _ => none

/-- Bits 0 and 1 and bits 4 to 6 of CONTROL, in the words of the show functions. -/
def Agrees (s : Driver Controller) : Prop :=
  (∃ t, showProximityControl s =
    some (.shown (decimal (s.data.control.extractLsb' 0 2).toNat), t)) ∧
  ∃ t, showProximityDutyCycle s =
    some (.shown (decimal (s.data.control.extractLsb' 4 3).toNat), t)

def OnlyBlaster (s t : Driver Controller) : Prop :=
  t.data.control &&& 0xfb = s.data.control &&& 0xfb

def Undisturbed (visited : List (Driver Controller × Write)) (t : Driver Controller) : Prop :=
  Throughout Agrees visited t ∧
  ∀ p ∈ visited, Commands p.2 → ∀ u, step p.1 p.2 = some u → OnlyBlaster p.1 u

def Allowed (s : Driver Controller) (a : Write) : Prop :=
  match a with
  | .irBlaster _ _ _ ret =>
      Commands a → 0 ≤ ret → s.data.proximityControl = 0 ∧ s.data.proximityDutyCycle = 4
  | _ => True

structure Composed (s : Driver Controller) : Prop where
  free : s.locked = false
  control : s.data.control.extractLsb' 0 2 = s.data.proximityControl
  dutyCycle : s.data.control.extractLsb' 4 3 = s.data.proximityDutyCycle
  others : s.data.control &&& 0x88 = 0

theorem decimal_control : ∀ a b : BitVec 2, decimal a.toNat = decimal b.toNat → a = b := by
  decide

theorem decimal_dutyCycle : ∀ a b : BitVec 3, decimal a.toNat = decimal b.toNat → a = b := by
  decide

theorem showField_shown {δ : Type} {text : δ → String} {s t : Driver δ} {shown : String}
    (ran : showField text s = some (.shown shown, t)) : s.locked = false ∧ shown = text s.data := by
  unfold showField mutexLock at ran
  split at ran
  · contradiction
  · rename_i free
    cases Option.some.inj ran
    exact ⟨by simpa using free,rfl⟩

theorem agrees_iff (s : Driver Controller) : Agrees s ↔ s.locked = false ∧
    s.data.control.extractLsb' 0 2 = s.data.proximityControl ∧
    s.data.control.extractLsb' 4 3 = s.data.proximityDutyCycle := by
  constructor
  · rintro ⟨⟨t,control⟩,u,dutyCycle⟩
    obtain ⟨free,one⟩ := showField_shown control
    obtain ⟨-,two⟩ := showField_shown dutyCycle
    exact ⟨free,decimal_control _ _ one,decimal_dutyCycle _ _ two⟩
  · rintro ⟨free,control,dutyCycle⟩
    constructor
    · rw [control, showProximityControl, showField, mutexLock, free]
      exact ⟨_,rfl⟩
    · rw [dutyCycle, showProximityDutyCycle, showField, mutexLock, free]
      exact ⟨_,rfl⟩

theorem setProximity_bits (d : Controller) :
    (setProximity d).control.extractLsb' 0 2 = d.proximityControl ∧
    (setProximity d).control.extractLsb' 4 3 = d.proximityDutyCycle ∧
    (setProximity d).control &&& 0x88 = 0 := by
  have composed : ∀ (c : BitVec 2) (w : BitVec 3),
      (w.setWidth 8 <<< 4 ||| c.setWidth 8).extractLsb' 0 2 = c ∧
      (w.setWidth 8 <<< 4 ||| c.setWidth 8).extractLsb' 4 3 = w ∧
      (w.setWidth 8 <<< 4 ||| c.setWidth 8) &&& 0x88 = 0 := by decide
  exact composed d.proximityControl d.proximityDutyCycle

theorem composed_setProximity {t : Driver Controller} {d : Controller} (free : t.locked = false)
    (data : t.data = setProximity d) : Composed t := by
  obtain ⟨control,dutyCycle,others⟩ := setProximity_bits d
  constructor
  · exact free
  · rw [data]
    exact control
  · rw [data]
    exact dutyCycle
  · rw [data]
    exact others

theorem step_some {s t : Driver Controller} {a : Write} (next : step s a = some t) :
    ∃ count, access a.access s = some (.stored count, t) := by
  unfold step at next
  split at next
  · rename_i count u ran
    cases Option.some.inj next
    exact ⟨count,ran⟩
  · contradiction

theorem storeField_stored {δ : Type} {max val count n : Nat} {note : Nat → δ → δ} {transfer : δ → δ}
    {ret : Int} {s t : Driver δ}
    (ran : storeField max note transfer val count ret s = some (.stored n, t)) :
    t.locked = false ∧ t.data = transfer (note val s.data) := by
  simp only [storeField, mutexLock] at ran
  split at ran
  · cases Option.some.inj ran
  · split at ran
    · contradiction
    · split at ran
      · cases Option.some.inj ran
      · cases Option.some.inj ran
        exact ⟨rfl,rfl⟩

theorem setting_composed {s t : Driver Controller} {a : Write} (next : step s a = some t)
    (setting : (∃ buf ret, a = .proximityControl buf ret) ∨
      ∃ buf ret, a = .proximityDutyCycle buf ret) : Composed t := by
  obtain ⟨count,ran⟩ := step_some next
  rcases setting with ⟨buf,ret,rfl⟩ | ⟨buf,ret,rfl⟩
  · rw [Write.access, access, storeProximityControl] at ran
    obtain ⟨free,data⟩ := storeField_stored ran
    exact composed_setProximity free data
  · rw [Write.access, access, storeProximityDutyCycle] at ran
    obtain ⟨free,data⟩ := storeField_stored ran
    exact composed_setProximity free data

theorem blast_cases (val : Nat) (ret : Int) (d : Controller) :
    (blast val ret d).proximityControl = d.proximityControl ∧
    (blast val ret d).proximityDutyCycle = d.proximityDutyCycle ∧
    (((blast val ret d).control = d.control ∧ ¬ (val ≤ 1 ∧ 0 ≤ ret)) ∨
      (((blast val ret d).control = 0x40 ∨ (blast val ret d).control = 0x44) ∧
        val ≤ 1 ∧ 0 ≤ ret)) := by
  unfold blast writeControl
  split
  · split
    · exact ⟨rfl,rfl,.inl ⟨rfl,by omega⟩⟩
    · exact ⟨rfl,rfl,.inr ⟨.inl rfl,by omega⟩⟩
  · split
    · exact ⟨rfl,rfl,.inl ⟨rfl,by omega⟩⟩
    · exact ⟨rfl,rfl,.inr ⟨.inr rfl,by omega⟩⟩
  · rename_i noIdle noBlast
    refine ⟨rfl,rfl,.inl ⟨rfl,?_⟩⟩
    rintro ⟨small,-⟩
    rcases Nat.le_one_iff_eq_zero_or_eq_one.mp small with idle | blasts
    · exact noIdle idle
    · exact noBlast blasts

theorem irBlaster_cases {s t : Driver Controller} {buf : List UInt8} {outVal inStr : Bool} {ret : Int}
    (free : s.locked = false) (next : step s (.irBlaster buf outVal inStr ret) = some t) :
    t.locked = false ∧ t.data.proximityControl = s.data.proximityControl ∧
    t.data.proximityDutyCycle = s.data.proximityDutyCycle ∧
    ((t.data.control = s.data.control ∧ ¬ (Commands (.irBlaster buf outVal inStr ret) ∧ 0 ≤ ret)) ∨
      ((t.data.control = 0x40 ∨ t.data.control = 0x44) ∧
        Commands (.irBlaster buf outVal inStr ret) ∧ 0 ≤ ret)) := by
  obtain ⟨count,ran⟩ := step_some next
  simp only [Write.access, access, irBlaster, mutexLock, free, Bool.false_eq_true, if_false] at ran
  split at ran
  · rename_i load
    split at ran
    · cases Option.some.inj ran
    · cases Option.some.inj ran
      have silent : ¬ (Commands (.irBlaster buf outVal inStr ret) ∧ 0 ≤ ret) := by
        rintro ⟨⟨short,-⟩,-⟩
        omega
      unfold mutexUnlock writeBlock
      split <;> exact ⟨rfl,rfl,rfl,.inl ⟨rfl,silent⟩⟩
  · rename_i short
    cases Option.some.inj ran
    obtain ⟨control,dutyCycle,register⟩ := blast_cases (simpleStrtoul buf 10) ret s.data
    refine ⟨rfl,control,dutyCycle,?_⟩
    have command : Commands (.irBlaster buf outVal inStr ret) ↔ simpleStrtoul buf 10 ≤ 1 :=
      and_iff_right (Nat.not_lt.mp short)
    rw [command]
    exact register

theorem written_bits {control : BitVec 8} (written : control = 0x40 ∨ control = 0x44) :
    control.extractLsb' 0 2 = 0 ∧ control.extractLsb' 4 3 = 4 ∧
    control &&& 0x88 = 0 ∧ control &&& 0xfb = 0x40 := by
  rcases written with rfl | rfl
  all_goals decide

theorem step_composed (s : Driver Controller) (a : Write) (t : Driver Controller)
    (composed : Composed s) (allowed : Allowed s a) (next : step s a = some t) :
    Composed t := by
  cases a with
  | proximityControl buf ret => exact setting_composed next (.inl ⟨buf,ret,rfl⟩)
  | proximityDutyCycle buf ret => exact setting_composed next (.inr ⟨buf,ret,rfl⟩)
  | irBlaster buf outVal inStr ret =>
    obtain ⟨free,control,dutyCycle,register⟩ := irBlaster_cases composed.free next
    rcases register with ⟨same,-⟩ | ⟨written,command,arrives⟩
    · constructor
      · exact free
      · rw [same, control]
        exact composed.control
      · rw [same, dutyCycle]
        exact composed.dutyCycle
      · rw [same]
        exact composed.others
    · obtain ⟨stopped,fifth⟩ := allowed command arrives
      obtain ⟨bits,wide,others,-⟩ := written_bits written
      constructor
      · exact free
      · rw [bits, control, stopped]
      · rw [wide, dutyCycle, fifth]
      · exact others

theorem step_allowed (s : Driver Controller) (a : Write) (t : Driver Controller)
    (composed : Composed s) (next : step s a = some t) (agrees : Agrees t) : Allowed s a := by
  cases a with
  | proximityControl buf ret => exact trivial
  | proximityDutyCycle buf ret => exact trivial
  | irBlaster buf outVal inStr ret =>
    intro command arrives
    obtain ⟨_,control,dutyCycle,register⟩ := irBlaster_cases composed.free next
    obtain ⟨_,bits,wide⟩ := (agrees_iff t).mp agrees
    rcases register with ⟨-,silent⟩ | ⟨written,-,-⟩
    · exact absurd ⟨command,arrives⟩ silent
    · obtain ⟨stopped,fifth,-⟩ := written_bits written
      exact ⟨control.symm.trans (bits.symm.trans stopped),
        dutyCycle.symm.trans (wide.symm.trans fifth)⟩

theorem command_onlyBlaster {s t : Driver Controller} {a : Write} (composed : Composed s)
    (command : Commands a) (allowed : Allowed s a) (next : step s a = some t) : OnlyBlaster s t := by
  cases a with
  | proximityControl buf ret => contradiction
  | proximityDutyCycle buf ret => contradiction
  | irBlaster buf outVal inStr ret =>
    obtain ⟨_,_,_,register⟩ := irBlaster_cases composed.free next
    rcases register with ⟨same,-⟩ | ⟨written,-,arrives⟩
    · rw [OnlyBlaster, same]
    · obtain ⟨stopped,fifth⟩ := allowed command arrives
      have before : ∀ old : BitVec 8, old.extractLsb' 0 2 = 0 → old.extractLsb' 4 3 = 4 →
          old &&& 0x88 = 0 → old &&& 0xfb = 0x40 := by decide
      have old := before s.data.control (composed.control.trans stopped)
        (composed.dutyCycle.trans fifth) composed.others
      obtain ⟨-,-,-,new⟩ := written_bits written
      rw [OnlyBlaster, old, new]

/-- In a run that begins with a write to proximity_control, nothing is disturbed exactly when
    each command that arrives finds LEDs stopped and the duty cycle 4. -/
theorem undisturbed_iff {s t : Driver Controller} {visited : List (Driver Controller × Write)}
    {buf : List UInt8} {ret : Int}
    (run : Run step s ((s, .proximityControl buf ret) :: visited) t) :
    Undisturbed visited t ↔ Every Allowed visited := by
  cases run with
  | step first rest =>
    have composed := setting_composed first (.inl ⟨buf,ret,rfl⟩)
    have sound (s : Driver Controller) (inv : Composed s) : Agrees s :=
      (agrees_iff s).mpr ⟨inv.free,inv.control,inv.dutyCycle⟩
    have settings := rest.throughout_iff composed sound
      step_composed step_allowed
    constructor
    · rintro ⟨agrees,-⟩
      exact settings.mp agrees
    · intro allowed
      refine ⟨settings.mpr allowed,?_⟩
      obtain ⟨before,-⟩ := rest.invariant_of_allowed composed step_composed allowed
      intro p member command u next
      exact command_onlyBlaster (before p member) command (allowed p member) next

theorem stopped_undisturbed : ∃ visited t,
    Run step (probe 0 []) ((probe 0 [], .proximityControl [48] 0) :: visited) t ∧
    Undisturbed visited t := by
  have taken : ∃ visited t, follow step (probe 0 []) [.proximityControl [48] 0,
      .irBlaster [49] true true 0] = some ((probe 0 [], .proximityControl [48] 0) :: visited, t) ∧
      Every Allowed visited := by
    refine ⟨_,_,rfl,?_⟩
    rintro p (_ | _)
    · intro _ _
      exact ⟨rfl,rfl⟩
    · contradiction
  obtain ⟨visited,t,taken,allowed⟩ := taken
  have run := run_follow _ taken
  exact ⟨visited,t,run,(undisturbed_iff run).mpr allowed⟩

theorem blast_disturbs : ∃ visited t,
    Run step (probe 0 []) ((probe 0 [], .proximityControl [49] 0) :: visited) t ∧
    t.data.proximityControl = 1 ∧ t.data.control = 0x44 ∧ ¬ Undisturbed visited t := by
  have taken : ∃ visited t, follow step (probe 0 []) [.proximityControl [49] 0,
      .irBlaster [49] true true 0] = some ((probe 0 [], .proximityControl [49] 0) :: visited, t) ∧
      t.data.proximityControl = 1 ∧ t.data.control = 0x44 := ⟨_,_,rfl,rfl,rfl⟩
  obtain ⟨visited,t,taken,control,register⟩ := taken
  refine ⟨visited,t,run_follow _ taken,control,register,?_⟩
  rintro ⟨⟨-,agrees⟩,-⟩
  have bits := ((agrees_iff t).mp agrees).2.1
  rw [control, register] at bits
  contradiction

end Fab4Ir
