import SqueezeOS.Msp430.Responses

/- msp430_programmer_read, and that it shows the flash of the chip: after an upgrade the image of the
   text. -/
namespace Sbw
open Tap SpyBiWire

structure Line where
  address : Nat
  buf : List Word
  deriving DecidableEq, Repr

section
variable (target : List Wire → Bool)

end

def Line.byte (line : Line) (k : Nat) : UInt8 :=
  UInt8.ofNat ((line.buf.getD (k / 2) 0).toNat / 256 ^ (k % 2))

/-- The byte at an address, as the lines show it: what is left out is erased. -/
def shown (lines : List Line) (address : Nat) : UInt8 :=
  ((lines.find? fun line => line.address ≤ address ∧ address < line.address + 8).map fun line =>
    line.byte (address - line.address)).getD 0xFF

theorem wordAt_toNat (flash : Flash) (address : Nat) : (flash.wordAt address).toNat =
    (flash.cells address).toNat + 256 * (flash.cells (address + 1)).toNat := by
  have low := (flash.cells address).toNat_lt
  have high := (flash.cells (address + 1)).toNat_lt
  simp [Flash.wordAt]
  omega

theorem wordAt_byte (flash : Flash) (address k : Nat) (either : k < 2) :
    UInt8.ofNat ((flash.wordAt address).toNat / 256 ^ k) = flash.cells (address + k) := by
  have low := (flash.cells address).toNat_lt
  obtain rfl | rfl : k = 0 ∨ k = 1 := by omega
  · apply UInt8.toNat_inj.mp
    simp [wordAt_toNat]
  · have high := (flash.cells (address + 1)).toNat_lt
    apply UInt8.toNat_inj.mp
    simp [wordAt_toNat]
    omega

theorem line_byte (flash : Flash) (i k : Nat) (inside : k < 8) :
    (⟨i,(List.range 4).map fun j => flash.wordAt (i + j * 2)⟩ : Line).byte k =
      flash.cells (i + k) := by
  have word : ((List.range 4).map fun j => flash.wordAt (i + j * 2)).getD (k / 2) 0 =
      flash.wordAt (i + k / 2 * 2) := by
    have turn : k / 2 < 4 := by omega
    simp [List.getD_eq_getElem?_getD, turn]
  have whole : i + k / 2 * 2 + k % 2 = i + k := by omega
  rw [Line.byte, word, wordAt_byte flash _ _ (Nat.mod_lt k (by decide)), whole]

theorem shown_cons (line : Line) (lines : List Line) (address : Nat) :
    shown (line :: lines) address =
      if line.address ≤ address ∧ address < line.address + 8 then line.byte (address - line.address)
      else shown lines address := by
  unfold shown
  by_cases here : line.address ≤ address ∧ address < line.address + 8 <;> simp [List.find?, here]

theorem shown_before {lines : List Line} {i address : Nat}
    (later : ∀ line ∈ lines, i ≤ line.address) (below : address < i) :
    shown lines address = 0xFF := by
  have none : lines.find? (fun line => line.address ≤ address ∧ address < line.address + 8) =
      none := by
    rw [List.find?_eq_none]
    intro line member
    have := later line member
    simp
    omega
  rw [shown, none]
  rfl

section
variable {target : List Wire → Bool} {start : Chip} {first : Bus} {answer : Bus → Word}
  {chip : TiTxt.Chip} {flash : Flash} {words : List (Word × Word)} {h t : Host}

structure Lists (flash : Flash) (i : Nat) (lines : List Line) : Prop where
  later : ∀ line ∈ lines, i ≤ line.address
  cells : ∀ address, i ≤ address → address < 0x10000 → shown lines address = flash.cells address

theorem Lists.skip {i : Nat} {lines : List Line} (lists : Lists flash (i + 8) lines)
    (blank : ∀ k < 8, flash.cells (i + k) = 0xFF) : Lists flash i lines where
  later line member := (Nat.le_add_right i 8).trans (lists.later line member)
  cells address from_ top := by
    by_cases here : address < i + 8
    · have cell := blank (address - i) (by omega)
      rw [show i + (address - i) = address by omega] at cell
      rw [shown_before lists.later here, cell]
    · exact lists.cells address (by omega) top

theorem Lists.print {i : Nat} {lines : List Line} (lists : Lists flash (i + 8) lines) :
    Lists flash i (⟨i,(List.range 4).map fun j => flash.wordAt (i + j * 2)⟩ :: lines) where
  later := by
    refine List.forall_mem_cons.mpr ⟨le_refl i,fun line member => ?_⟩
    exact (Nat.le_add_right i 8).trans (lists.later line member)
  cells address from_ top := by
    rw [shown_cons]
    dsimp only
    split
    · have whole : i + (address - i) = address := by omega
      rw [line_byte flash i _ (by omega), whole]
    · exact lists.cells address (by omega) top

end

end Sbw
