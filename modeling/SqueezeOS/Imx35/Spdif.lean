import SqueezeOS.BitFields
import SqueezeOS.Kernel.Bitrev

/- The channel status of the i.MX35 S/PDIF transmitter: four bytes that the user control, the
   sample rate and the clock accuracy change, and the two registers that they are sent from. -/
namespace Spdif
open Bitrev

inductive SpdifClkAccuracy where
  | lev2 | lev3 | lev1 | resv
  deriving DecidableEq, Repr

def SpdifClkAccuracy.toNat : SpdifClkAccuracy → Nat
  | .lev2 => 0
  | .lev3 => 1
  | .lev1 => 2
  | .resv => 3

structure Chip where
  spdifTxclk44100 : BitVec 32
  spdifTxclk48000 : BitVec 32

structure State where
  chStatus : Fin 4 → BitVec 8
  stcsch : BitVec 32
  stcscl : BitVec 32
  stc : BitVec 32
  deriving DecidableEq

def spdifSetChannelStatus (s : State) : State :=
  let stcsch := (s.chStatus 2).setWidth 32 <<< 24 ||| (s.chStatus 1).setWidth 32 <<< 16 |||
    (s.chStatus 0).setWidth 32 <<< 8
  let stcscl := (s.chStatus 3).setWidth 32 <<< 8
  { s with stcsch := bitrev32 stcsch, stcscl := bitrev32 stcscl }

def setStatus3 (byte : BitVec 8) (s : State) : State :=
  { s with chStatus := Function.update s.chStatus 3 byte }

def spdifSetClkAccuracy (level : SpdifClkAccuracy) (s : State) : State :=
  let s := setStatus3 (s.chStatus 3 &&& 0xcf) s
  let s := setStatus3 (s.chStatus 3 ||| BitVec.ofNat 8 (level.toNat <<< 4)) s
  spdifSetChannelStatus s

def setRate (bits : BitVec 8) (stc : BitVec 32) (s : State) : State :=
  { setStatus3 (s.chStatus 3 ||| bits) s with stc := stc }

def spdifSetSampleRate (chip : Chip) (sampleRate : Nat) (s : State) : State :=
  let s := setStatus3 (s.chStatus 3 &&& 0xF0) s
  let stc := s.stc &&& ~~~0x7FF
  let s := match sampleRate with
    | 96000 => setRate 0x0A (stc ||| (chip.spdifTxclk48000 <<< 8 ||| 0x03)) s
    | 88200 => setRate 0x08 (stc ||| (chip.spdifTxclk44100 <<< 8 ||| 0x03)) s
    | 48000 => setRate 0x02 (stc ||| (chip.spdifTxclk48000 <<< 8 ||| 0x07)) s
    | 44100 => setRate 0x00 (stc ||| (chip.spdifTxclk44100 <<< 8 ||| 0x07)) s
    | 32000 => setRate 0x03 (stc ||| (chip.spdifTxclk48000 <<< 8 ||| 0x0b)) s
    | _ => s
  spdifSetChannelStatus s

def mxcPbSpdifPut (status : Fin 4 → BitVec 8) (s : State) : State :=
  spdifSetChannelStatus { s with chStatus := status }

inductive Call where
  | put (status : Fin 4 → BitVec 8)
  | sampleRate (rate : Nat)
  | clkAccuracy (level : SpdifClkAccuracy)

def step (chip : Chip) (s : State) : Call → State
  | .put status => mxcPbSpdifPut status s
  | .sampleRate rate => spdifSetSampleRate chip rate s
  | .clkAccuracy level => spdifSetClkAccuracy level s

structure Shown (s : State) : Prop where
  high : ∀ j : Fin 4, j < 3 → ∀ k < 8,
    s.stcsch.getLsbD (23 - 8 * j - k) = (s.chStatus j).getLsbD k
  highRest : ∀ i, 24 ≤ i → s.stcsch.getLsbD i = false
  low : ∀ k < 8, s.stcscl.getLsbD (23 - k) = (s.chStatus 3).getLsbD k
  lowRest : ∀ i, i < 16 ∨ 24 ≤ i → s.stcscl.getLsbD i = false

def OnlyBits (first last : Nat) (s t : State) : Prop :=
  ∀ j : Fin 4, ∀ k < 8, ¬(first ≤ 8 * j + k ∧ 8 * j + k ≤ last) →
    (t.chStatus j).getLsbD k = (s.chStatus j).getLsbD k

theorem getLsbD_bitrev32 (x : BitVec 32) {i : Nat} (hi : i < 32) :
    (bitrev32 x).getLsbD i = x.getLsbD (31 - i) := by
  rw [bitrev32_reverse, BitVec.getLsbD_reverse, BitVec.getMsbD_eq_getLsbD]
  simp [hi]

theorem placed_here (byte : BitVec 8) {n k : Nat} (hk : k < 8) (hn : n ≤ 24) :
    (byte.setWidth 32 <<< n).getLsbD (n + k) = byte.getLsbD k := by
  have inside : n + k < 32 := by omega
  have small : k < 32 := by omega
  rw [BitVec.getLsbD_shiftLeft, BitVec.getLsbD_setWidth]
  simp [inside, small]

theorem placed_apart (byte : BitVec 8) {n i : Nat} (apart : i < n ∨ n + 8 ≤ i) :
    (byte.setWidth 32 <<< n).getLsbD i = false := by
  rw [BitVec.getLsbD_shiftLeft, BitVec.getLsbD_setWidth]
  rcases apart with below | above
  · simp [below]
  · simp [BitVec.getLsbD_of_ge byte (i - n) (by omega)]

theorem setChannelStatus_shown (s : State) : Shown (spdifSetChannelStatus s) := by
  constructor
  · intro j hj k hk
    have place : 31 - (23 - 8 * j.val - k) = 8 + 8 * j.val + k := by omega
    simp only [spdifSetChannelStatus]
    rw [getLsbD_bitrev32 _ (by omega), place, BitVec.getLsbD_or, BitVec.getLsbD_or]
    have bytes : j = 0 ∨ j = 1 ∨ j = 2 := by omega
    rcases bytes with rfl | rfl | rfl
    · rw [placed_apart _ (by simp; omega), placed_apart _ (by simp; omega)]
      simpa using placed_here (s.chStatus 0) hk (by decide : 8 ≤ 24)
    · rw [placed_apart _ (by simp; omega), placed_apart (s.chStatus 0) (by simp)]
      simpa using placed_here (s.chStatus 1) hk (by decide : 16 ≤ 24)
    · rw [placed_apart (s.chStatus 1) (by simp), placed_apart (s.chStatus 0) (by simp; omega)]
      simpa using placed_here (s.chStatus 2) hk (by decide : 24 ≤ 24)
  · intro i hi
    by_cases inside : i < 32
    · simp only [spdifSetChannelStatus]
      rw [getLsbD_bitrev32 _ inside, BitVec.getLsbD_or, BitVec.getLsbD_or,
        placed_apart _ (by omega), placed_apart _ (by omega), placed_apart _ (by omega)]
      rfl
    · exact BitVec.getLsbD_of_ge _ _ (Nat.not_lt.mp inside)
  · intro k hk
    have place : 31 - (23 - k) = 8 + k := by omega
    simp only [spdifSetChannelStatus]
    rw [getLsbD_bitrev32 _ (by omega), place, placed_here _ hk (by decide)]
  · intro i hi
    by_cases inside : i < 32
    · simp only [spdifSetChannelStatus]
      rw [getLsbD_bitrev32 _ inside, placed_apart _ (by omega)]
    · exact BitVec.getLsbD_of_ge _ _ (Nat.not_lt.mp inside)

theorem onlyBits_write {s t : State} (mask bits : BitVec 8) {first last : Nat}
    (written : t.chStatus =
      Function.update s.chStatus 3 (BitFields.write (s.chStatus 3) mask bits))
    (within : bits &&& mask = bits)
    (range : ∀ k < 8, ¬(first ≤ 24 + k ∧ 24 + k ≤ last) → mask.getLsbD k = false) :
    OnlyBits first last s t := by
  intro j k hk outside
  rw [written]
  by_cases third : j = 3
  · subst third
    rw [Function.update_self]
    exact BitFields.write_outside within (range k hk outside)
  · rw [Function.update_of_ne third]

theorem setClkAccuracy_onlyBits (level : SpdifClkAccuracy) (s : State) :
    OnlyBits 28 29 s (spdifSetClkAccuracy level s) := by
  apply onlyBits_write 0x30 (BitVec.ofNat 8 (level.toNat <<< 4))
  · simp [spdifSetClkAccuracy, spdifSetChannelStatus, setStatus3, BitFields.write]
  · cases level <;> decide
  · decide

theorem setSampleRate_nibble (chip : Chip) (rate : Nat) (s : State) :
    ∃ bits : BitVec 8, bits &&& 0x0F = bits ∧ (spdifSetSampleRate chip rate s).chStatus =
      Function.update s.chStatus 3 (BitFields.write (s.chStatus 3) 0x0F bits) := by
  simp only [spdifSetSampleRate, spdifSetChannelStatus, BitFields.write]
  split
  · exact ⟨0x0A,by decide,by simp [setRate, setStatus3]⟩
  · exact ⟨0x08,by decide,by simp [setRate, setStatus3]⟩
  · exact ⟨0x02,by decide,by simp [setRate, setStatus3]⟩
  · exact ⟨0x00,by decide,by simp [setRate, setStatus3]⟩
  · exact ⟨0x03,by decide,by simp [setRate, setStatus3]⟩
  · exact ⟨0x00,by decide,by simp [setStatus3]⟩

theorem setSampleRate_onlyBits (chip : Chip) (rate : Nat) (s : State) :
    OnlyBits 24 27 s (spdifSetSampleRate chip rate s) := by
  obtain ⟨bits,within,written⟩ := setSampleRate_nibble chip rate s
  exact onlyBits_write 0x0F bits written within (by decide)

theorem step_shown (chip : Chip) (s : State) (c : Call) : Shown (step chip s c) := by
  cases c <;> exact setChannelStatus_shown _

def run (chip : Chip) (s : State) (calls : List Call) : State := calls.foldl (step chip) s

/-- After every call the registers show the status; the sample rate has bits 24 to 27 of it, the
    clock accuracy bits 28 and 29. -/
theorem channel_status_registers (chip : Chip) (s : State) (calls : List Call) :
    (∀ c, Shown (run chip s (calls ++ [c]))) ∧
      (∀ rate, OnlyBits 24 27 (run chip s calls) (run chip s (calls ++ [.sampleRate rate]))) ∧
      ∀ level, OnlyBits 28 29 (run chip s calls) (run chip s (calls ++ [.clkAccuracy level])) := by
  have last (c : Call) : run chip s (calls ++ [c]) = step chip (run chip s calls) c := by
    rw [run, List.foldl_append]
    rfl
  refine ⟨?_,?_,?_⟩
  · intro c
    rw [last]
    exact step_shown chip _ c
  · intro rate
    rw [last]
    exact setSampleRate_onlyBits chip rate _
  · intro level
    rw [last]
    exact setClkAccuracy_onlyBits level _

end Spdif
