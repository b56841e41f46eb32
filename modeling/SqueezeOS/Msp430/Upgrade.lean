import SqueezeOS.Msp430.Firmware

/- What an upgrade leaves on the bus of the chip, by its outcome, and that it is the sections of the
   text where they belong. -/
namespace Sbw
open Tap SpyBiWire

/-- EXECUTE-POR ends with this store, which stops the watchdog. -/
def watchdogStopped : List (Word × Word) := [(0x0120, 0x5A80)]

/-- The key and the bits of FCTL1, FCTL2 and FCTL3. -/
def flashUnlocked : List (Word × Word) := [(0x0128, 0xA540), (0x012A, 0xA540), (0x012C, 0xA500)]

def flashLocked : List (Word × Word) := [(0x0128, 0xA500), (0x012C, 0xA500)]

def wordStores (startAddr : Word) (length : Nat) (dataArray : Nat → Word) : List (Word × Word) :=
  (List.range length).map fun i => (startAddr + BitVec.ofNat 16 (2 * i), dataArray i)

def eraseStores (eraseMode eraseAddr : Word) : List (Word × Word) :=
  [(0x0128, eraseMode), (0x012A, 0xA540), (0x012C, 0xA500), (eraseAddr, 0x55AA), (0x0128, 0xA500)]

def massErased (fastFlash : Bool) : List (Word × Word) :=
  (List.replicate (eraseTimes fastFlash eraseMass).2 (eraseStores eraseMass 0xFFFF)).flatten ++
    [(0x012C, 0xA500)]

def prepared (fastFlash : Bool) : List (Word × Word) :=
  watchdogStopped ++ massErased fastFlash ++ watchdogStopped ++ watchdogStopped

def sectionStores (txt : TiTxt.Parsed) (header : TiTxt.Header) : List (Word × Word) :=
  flashUnlocked ++ wordStores (BitVec.ofNat 16 header.address) (header.length / 2)
    (wordsOf (txt.bytes.drop (header.data.getD 0))) ++ flashLocked

section
variable {target : List Wire → Bool} {start : Chip} {first : Bus} {h t u : Host}

inductive Left (txt : TiTxt.Parsed) : Outcome → List (Word × Word) → Prop where
  | untouched : Left txt .noDevice []
  | reset : Left txt .noDevice watchdogStopped
  | erased (fastFlash : Bool) : Left txt .notErased (prepared fastFlash)
  | written (fastFlash : Bool) (ends : (TiTxt.visit txt.headers).2 = true) : Left txt .written
      (prepared fastFlash ++ (TiTxt.visit txt.headers).1.flatMap (sectionStores txt))
  | ranOut (fastFlash : Bool) (full : (TiTxt.visit txt.headers).2 = false) : Left txt .ranOut
      (prepared fastFlash ++ (TiTxt.visit txt.headers).1.flatMap (sectionStores txt))

end

def bytesOf (chip : TiTxt.Chip) (word : Word × Word) : List (Nat × UInt8) :=
  [(chip.place word.1.toNat, UInt8.ofNat word.2.toNat),
    (chip.place word.1.toNat + 1, UInt8.ofNat (word.2.toNat / 256))]

def unlocked (words : List (Word × Word)) : List (Word × Word) :=
  flashUnlocked ++ words ++ flashLocked

inductive Refused : Outcome → Prop where
  | noFirmware : Refused .noFirmware
  | unparsed : Refused .unparsed
  | current : Refused .current

def known : BlockRead := ⟨1,fun _ => i2cIdValue⟩

end Sbw
