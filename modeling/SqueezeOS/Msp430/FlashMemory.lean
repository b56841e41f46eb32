import SqueezeOS.Msp430.Upgrade

/- The flash behind the bus, and what an upgrade makes of its bytes. -/
namespace Sbw
open Tap SpyBiWire

/-- FCTL1, and the bytes at 0xE000 and above. -/
structure Flash where
  mode : Word
  cells : Nat → UInt8

/-- Programming clears bits and sets none. -/
def burn (cells : Nat → UInt8) (byte : Nat × UInt8) : Nat → UInt8 :=
  Function.update cells byte.1 (cells byte.1 &&& byte.2)

/-- A store to the flash erases all of it or programs a word, as FCTL1 tells. -/
def Flash.store (chip : TiTxt.Chip) (flash : Flash) (word : Word × Word) : Flash :=
  if word.1 = 0x0128 then { flash with mode := word.2 }
  else if word.1.toNat < 0xE000 then flash
  else if flash.mode = eraseMass then { flash with cells := fun _ => 0xFF }
  else if flash.mode = 0xA540 then
    { flash with cells := (bytesOf chip word).foldl burn flash.cells }
  else flash

def Flash.stored (chip : TiTxt.Chip) (flash : Flash) (words : List (Word × Word)) : Flash :=
  words.foldl (Flash.store chip) flash

def imageOf (sections : List (Nat × List UInt8)) : List (Nat × UInt8) :=
  sections.flatMap fun part => TiTxt.placed part.1 part.2

def filled (sections : List (Nat × List UInt8)) : Flash :=
  ⟨0xA500,fun address => ((imageOf sections).lookup address).getD 0xFF⟩

section
variable {chip : TiTxt.Chip}

end

end Sbw
