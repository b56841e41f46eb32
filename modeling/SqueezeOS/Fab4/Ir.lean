import SqueezeOS.Kernel.Guarded
import SqueezeOS.Kernel.Strings

/- The infrared controller of the Fab4: its attributes and the mutex lock around them. -/
namespace Fab4Ir
open Guarded KernelStrings

inductive Flash where
  | erase | program
  deriving DecidableEq, Repr

/-- The settings of struct fab4_ir_data, the registers CONTROL and from BITS0 to TRAIL of the
    controller, and what was asked of its firmware. -/
structure Controller where
  proximityControl : BitVec 2
  proximityDutyCycle : BitVec 3
  control : BitVec 8
  blaster : List UInt8
  flashes : List Flash
  deriving DecidableEq, Repr

/-- As fab4_ir_probe leaves it; the registers of the controller may hold anything. -/
def probe (control : BitVec 8) (blaster : List UInt8) : Driver Controller :=
  { locked := false
    data := { proximityControl := 3, proximityDutyCycle := 4, control := control
              blaster := blaster, flashes := [] } }

def setProximity (d : Controller) : Controller :=
  { d with control := d.proximityDutyCycle.setWidth 8 <<< 4 ||| d.proximityControl.setWidth 8 }

def decimal (value : Nat) : String := toString value ++ "\n"

def showProximityControl : Operation Controller :=
  showField fun d => decimal d.proximityControl.toNat

def storeProximityControl (buf : List UInt8) (ret : Int) : Operation Controller :=
  storeField 3 (fun val d => { d with proximityControl := BitVec.ofNat 2 val }) setProximity
    (simpleStrtoul buf 10) buf.length ret

def showProximityDutyCycle : Operation Controller :=
  showField fun d => decimal d.proximityDutyCycle.toNat

def storeProximityDutyCycle (buf : List UInt8) (ret : Int) : Operation Controller :=
  storeField 7 (fun val d => { d with proximityDutyCycle := BitVec.ofNat 3 val }) setProximity
    (simpleStrtoul buf 10) buf.length ret

def showRegister (ret : Int) (value : UInt8) : Operation Controller :=
  mutexLock fun s =>
    if ret < 0 then some (.error ret, s) else some (.shown (decimal value.toNat), mutexUnlock s)

def showProximityDensity (ret : Int) (values : Vector UInt8 7) : Operation Controller :=
  showRegister ret values[6]

def showFwRev (ret : Int) (values : Vector UInt8 6) : Operation Controller :=
  showRegister ret values[5]

def tokens (str : List UInt8) : List (List UInt8) :=
  (str.splitOnP fun c => c == 32 || c == 9 || c == 13 || c == 10).filter fun token => token != []

def tokenValue : List UInt8 → UInt8
  | 48 :: 120 :: c :: token =>
      if isxdigit c then UInt8.ofNat (simpleStrtol (c :: token) 16)
      else UInt8.ofNat (simpleStrtol (48 :: 120 :: c :: token) 10)
  | c :: token => if isdigit c then UInt8.ofNat (simpleStrtol (c :: token) 10) else 0
  | [] => 0

/-- strncpy stops at a NUL that was written. -/
def blasterBytes (buf : List UInt8) : List UInt8 :=
  ((tokens (buf.takeWhile (· != 0))).take 16).map tokenValue

/-- The registers from the first of the block on; nothing arrives when the transfer fails. -/
def writeBlock (ret : Int) (bytes : List UInt8) (d : Controller) : Controller :=
  if ret < 0 then d else { d with blaster := bytes ++ d.blaster.drop bytes.length }

def writeControl (ret : Int) (value : BitVec 8) (d : Controller) : Controller :=
  if ret < 0 then d else { d with control := value }

def blast (val : Nat) (ret : Int) (d : Controller) : Controller :=
  match val with
  | 0 => writeControl ret 0x40 d
  | 1 => writeControl ret 0x44 d
  | _ => d

/-- `outVal` and `inStr` tell whether the two buffers could be allocated. The result of the
    transfer is not looked at. -/
def irBlaster (buf : List UInt8) (outVal inStr : Bool) (ret : Int) : Operation Controller := fun s =>
  if buf.length > 2 then
    if !outVal || !inStr then some (.error enomem, s)
    else mutexLock (fun s => some (.stored buf.length,
      mutexUnlock { s with data := writeBlock ret (blasterBytes buf) s.data })) s
  else mutexLock (fun s => some (.stored buf.length,
    mutexUnlock { s with data := blast (simpleStrtoul buf 10) ret s.data })) s

def erase : List UInt8 := [101, 114, 97, 115, 101]
def program : List UInt8 := [112, 114, 111, 103, 114, 97, 109]

/-- The programming pins are not used under the mutex. -/
def flash (buf : List UInt8) : Operation Controller := fun s =>
  if erase.isPrefixOf buf then
    some (.stored buf.length, { s with data := { s.data with flashes := s.data.flashes ++ [.erase] } })
  else if program.isPrefixOf buf then
    some (.stored buf.length, { s with data := { s.data with flashes := s.data.flashes ++ [.program] } })
  else some (.stored buf.length, s)

/-- A read or a write of one of the attributes, with the text written, what the i2c transfers
    it makes return and the bytes they read. -/
inductive Access where
  | showProximityControl
  | storeProximityControl (buf : List UInt8) (ret : Int)
  | showProximityDutyCycle
  | storeProximityDutyCycle (buf : List UInt8) (ret : Int)
  | showProximityDensity (ret : Int) (values : Vector UInt8 7)
  | showFwRev (ret : Int) (values : Vector UInt8 6)
  | irBlaster (buf : List UInt8) (outVal inStr : Bool) (ret : Int)
  | flash (buf : List UInt8)
  deriving DecidableEq, Repr

def access : Access → Operation Controller
  | .showProximityControl => showProximityControl
  | .storeProximityControl buf ret => storeProximityControl buf ret
  | .showProximityDutyCycle => showProximityDutyCycle
  | .storeProximityDutyCycle buf ret => storeProximityDutyCycle buf ret
  | .showProximityDensity ret values => showProximityDensity ret values
  | .showFwRev ret values => showFwRev ret values
  | .irBlaster buf outVal inStr ret => irBlaster buf outVal inStr ret
  | .flash buf => flash buf

def Unlocks : Access → Prop
  | .storeProximityControl buf ret => simpleStrtoul buf 10 > 3 ∨ 0 ≤ ret
  | .storeProximityDutyCycle buf ret => simpleStrtoul buf 10 > 7 ∨ 0 ≤ ret
  | .showProximityDensity ret _ | .showFwRev ret _ => 0 ≤ ret
  | _ => True

section
variable {s : Driver Controller} (free : s.locked = false)
include free

theorem showRegister_frees (ret : Int) (value : UInt8) :
    Frees (showRegister ret value s) (0 ≤ ret) := by
  apply frees_mutexLock free
  apply frees_ite
  · intro failed
    exact frees_held rfl (Int.not_le.mpr failed)
  · intro read
    exact frees_free rfl (Int.not_lt.mp read)

theorem irBlaster_frees (buf : List UInt8) (outVal inStr : Bool) (ret : Int) :
    Frees (irBlaster buf outVal inStr ret s) True := by
  apply frees_ite
  · intro load
    apply frees_ite
    · intro refused
      exact frees_free free trivial
    · intro allocated
      exact frees_mutexLock free (frees_free rfl trivial)
  · intro short
    exact frees_mutexLock free (frees_free rfl trivial)

theorem flash_frees (buf : List UInt8) : Frees (flash buf s) True := by
  apply frees_ite
  · intro erases
    exact frees_free free trivial
  · intro rest
    apply frees_ite
    · intro programs
      exact frees_free free trivial
    · intro other
      exact frees_free free trivial

theorem access_frees (a : Access) : Frees (access a s) (Unlocks a) := by
  cases a with
  | showProximityControl =>
    unfold access showProximityControl Unlocks
    exact showField_frees _ free
  | storeProximityControl buf ret =>
    unfold access storeProximityControl Unlocks
    exact storeField_frees _ _ _ _ _ ret free
  | showProximityDutyCycle =>
    unfold access showProximityDutyCycle Unlocks
    exact showField_frees _ free
  | storeProximityDutyCycle buf ret =>
    unfold access storeProximityDutyCycle Unlocks
    exact storeField_frees _ _ _ _ _ ret free
  | showProximityDensity ret values => exact showRegister_frees free ret values[6]
  | showFwRev ret values => exact showRegister_frees free ret values[5]
  | irBlaster buf outVal inStr ret => exact irBlaster_frees free buf outVal inStr ret
  | flash buf => exact flash_frees free buf

end

end Fab4Ir
