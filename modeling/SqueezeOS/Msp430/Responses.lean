import SqueezeOS.Msp430.FlashMemory

/- An upgrade of a chip that answers and has a flash, which is carried out. -/
namespace Sbw
open Tap SpyBiWire

/-- The chip answers a scan of data by the state of its bus, and a scan of an instruction by its
    identification. -/
structure Responds (start : Chip) (first : Bus) (target : List Wire → Bool)
    (answer : Bus → Word) : Prop where
  leaves : LeavesHigh start target
  data : Shows start target .data fun seen => wordBits (answer (seen.foldl Bus.hear first))
  instruction : Shows start target .instruction fun _ => byteBits 0x89

def Flash.wordAt (flash : Flash) (address : Nat) : Word :=
  BitVec.ofNat 16 ((flash.cells address).toNat + 256 * (flash.cells (address + 1)).toNat)

section
variable {target : List Wire → Bool} {start : Chip} {first : Bus} {answer : Bus → Word} {h : Host}

theorem Responds.dr (responds : Responds start first target answer)
    (attached : Attached start first h) (data : Word) :
    (drShift16 target data h).1 = answer (bus start first h) :=
  (scans_return target attached.ready 0 data (fun seen => answer (seen.foldl Bus.hear first))
    fun _ => 0x89).1 responds.data

theorem Responds.ir (responds : Responds start first target answer)
    (attached : Attached start first h) (instruction : BitVec 8) :
    (irShift target instruction h).1 = jtagId :=
  (scans_return target attached.ready instruction 0 (fun _ => 0) fun _ => 0x89).2
    responds.instruction

theorem Responds.asked (responds : Responds start first target answer)
    (attached : Attached start first h) (instruction : BitVec 8) (data : Word) :
    (drShift16 target data (issue target (.ir instruction) h)).1 =
      answer ((bus start first h).perform (.ir instruction)) := by
  obtain ⟨ready,selected⟩ := attached.issue responds.leaves (.ir instruction)
  rw [← selected]
  exact responds.dr ready data

end

end Sbw
