import SqueezeOS.Msp430.JtagFunc
import SqueezeOS.Msp430.Programmer

/- What msp430_programmer_firmware does to the chip once it has decided to upgrade it: all that is
   stored on the bus, from the first contact to the release. -/
namespace Sbw
open Tap SpyBiWire

def jtagId : Word := 0x89

section
variable (target : List Wire → Bool)

end

/-- What DeviceHas_FastFlash and DeviceHas_EnhVerify say. -/
structure Device where
  fastFlash : Bool
  enhVerify : Bool

def wordsOf (data : List UInt8) (i : Nat) : Word :=
  BitVec.ofNat 16 ((data.getD (2 * i) 0).toNat + 256 * (data.getD (2 * i + 1) 0).toNat)

/-- How msp430_programmer_firmware comes to its end. With the array of sections full it takes what is
    behind it for a header (`ranOut`), and `written` is its call of ReleaseDevice. -/
inductive Outcome where
  | noFirmware
  | unparsed
  | current
  | noDevice
  | notErased
  | ranOut
  | written
  deriving DecidableEq, Repr

/-- What i2c_smbus_read_i2c_block_data returns, and what it puts into val. -/
structure BlockRead where
  status : Int
  val : Nat → UInt8

def i2cIdValue : UInt8 := 0xCC

section
variable (target : List Wire → Bool)

end

def stores (accesses : List Access) : List (Word × Word) :=
  accesses.filterMap fun
    | .store address data => some (address, data)
    | .cycle => none

structure Stored (start : Chip) (first : Bus) (h t : Host) (words : List (Word × Word)) : Prop where
  attached : Attached start first t
  stores : stores (bus start first t).accesses = Sbw.stores (bus start first h).accesses ++ words

section
variable {target : List Wire → Bool} {start : Chip} {first : Bus} {h t u : Host}

theorem Stored.refl (attached : Attached start first h) : Stored start first h h [] :=
  ⟨attached,(List.append_nil _).symm⟩

theorem Stored.trans {one other : List (Word × Word)} (before : Stored start first h t one)
    (after : Stored start first t u other) : Stored start first h u (one ++ other) :=
  ⟨after.attached,by rw [after.stores, before.stores, List.append_assoc]⟩

def Harmless (ops : List Op) : Prop :=
  ∀ b : Bus, stores (ops.foldl Bus.perform b).accesses = stores b.accesses

theorem Harmless.stored {ops : List Op} (harmless : Harmless ops) (leaves : LeavesHigh start target)
    (attached : Attached start first h) : Stored start first h (issueAll target ops h) [] := by
  obtain ⟨ready,whole⟩ := issueAll_bus leaves attached ops
  exact ⟨ready,by rw [whole, harmless, List.append_nil]⟩

theorem Harmless.cons {op : Op} {ops : List Op} (one : Harmless [op]) (others : Harmless ops) :
    Harmless (op :: ops) := fun b => (others (b.perform op)).trans (one b)

end

end Sbw
