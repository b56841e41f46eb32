import SqueezeOS.Flac.RestoreSignal

/- How the decoder calls either LPC restorer: residual, data_len, qlp_coeff and order
   in registers, lp_quantization and data on the stack. -/
namespace LpcAsm
open Arm RestoreSignal

structure LpcCall extends Call where
  shift : Nat
  order_positive : 1 ≤ order
  order_small : order ≤ 32
  shift_small : shift ≤ 15
  arguments : stacked = 2
  r3 : state.reg .r3 = BitVec.ofNat 32 order
  quantization : state.mem (state.reg .r13) = BitVec.ofNat 32 shift
  pointer : state.mem (addr (state.reg .r13) 1) = data
  coeff : Region (state.reg .r2) order
  samples_coeff : Apart (below data order) (order + len) (state.reg .r2) order
  coeff_stack : Apart (state.reg .r2) order (below (state.reg .r13) 10) (10 + stacked)

namespace LpcCall
variable (call : LpcCall)

/-- qlp_coeff[j]. -/
def q (j : Nat) : Word := call.state.mem (addr (call.state.reg .r2) j)

variable {call}

theorem coeff_apart : ApartFrom call.base call.order call.len (call.state.reg .r2) call.order := by
  intro i hi k hk
  exact (call.samples.addr_ne call.coeff call.samples_coeff (by omega) hk).symm

theorem saved_coeff {j : Nat} (hj : j < call.order) :
    call.saved (addr (call.state.reg .r2) j) = call.q j := by
  apply Call.saved_frame
  intro k hk
  exact call.coeff.addr_ne call.stack call.coeff_stack hj (by omega)

theorem saved_argument {k : Nat} (hk : k < 2) :
    call.saved (addr call.fp (10 + k)) = call.state.mem (addr (call.state.reg .r13) k) := by
  have above : addr call.fp (10 + k) = addr (call.state.reg .r13) k := by
    rw [Call.fp, addr_below _ (by omega), Nat.add_sub_cancel_left]
  rw [← above]
  apply Call.saved_frame
  intro n hn same
  have := addr_injective _ (by omega) (by omega) same
  omega

theorem saved_quantization : call.saved (addr call.fp 10) = BitVec.ofNat 32 call.shift := by
  rw [← call.quantization]
  exact (saved_argument (k := 0) (by decide)).trans (by rw [addr_zero])

theorem saved_pointer : call.saved (addr call.fp 11) = addr call.base call.order := by
  refine (saved_argument (k := 1) (by decide)).trans (call.pointer.trans ?_)
  rw [Call.base, addr_below _ (Nat.le_refl _), Nat.sub_self, addr_zero]

end LpcCall

def stored (base : Word) : List Word → Word → Word
  | [], _ => 0#32
  | word :: words, a => if a = base then word else stored (base + 4#32) words a

theorem saved_at : (below 0x8000#32 10).toNat = 0x7fd8 := by decide

/-- A call of this size has its arrays apart from 0x1000, 0x2000 and 0x3000 on. -/
structure Placed (order len shift : Nat) (data : Word) : Prop where
  front : below data order = 0x1000#32
  some_order : 1 ≤ order
  most_order : order ≤ 32
  some_len : 1 ≤ len
  most_len : len ≤ 32
  most_shift : shift ≤ 15

namespace Placed
variable {order len shift : Nat} {data : Word} (placed : Placed order len shift data)
include placed

theorem samples : Region (below data order) (order + len) := by
  have orders := placed.most_order
  have lengths := placed.most_len
  rw [placed.front]
  exact ⟨by decide,(by omega : 0x1000 + 4 * (order + len) ≤ 2 ^ 32)⟩

theorem residual : Region 0x2000#32 len := by
  have lengths := placed.most_len
  exact ⟨by decide,(by omega : 0x2000 + 4 * len ≤ 2 ^ 32)⟩

theorem coeff : Region 0x3000#32 order := by
  have orders := placed.most_order
  exact ⟨by decide,(by omega : 0x3000 + 4 * order ≤ 2 ^ 32)⟩

theorem samples_residual : Apart (below data order) (order + len) 0x2000#32 len := by
  have orders := placed.most_order
  have lengths := placed.most_len
  rw [placed.front]
  exact .inl (by omega : 0x1000 + 4 * (order + len) ≤ 0x2000)

theorem samples_coeff : Apart (below data order) (order + len) 0x3000#32 order := by
  have orders := placed.most_order
  have lengths := placed.most_len
  rw [placed.front]
  exact .inl (by omega : 0x1000 + 4 * (order + len) ≤ 0x3000)

theorem samples_stack : Apart (below data order) (order + len) (below 0x8000#32 10) 12 := by
  have orders := placed.most_order
  have lengths := placed.most_len
  rw [placed.front]
  change 0x1000 + 4 * (order + len) ≤ (below 0x8000#32 10).toNat ∨ _
  exact .inl (by rw [saved_at]; omega)

theorem residual_stack : Apart 0x2000#32 len (below 0x8000#32 10) 12 := by
  have lengths := placed.most_len
  change 0x2000 + 4 * len ≤ (below 0x8000#32 10).toNat ∨ _
  exact .inl (by rw [saved_at]; omega)

theorem coeff_stack : Apart 0x3000#32 order (below 0x8000#32 10) 12 := by
  have orders := placed.most_order
  change 0x3000 + 4 * order ≤ (below 0x8000#32 10).toNat ∨ _
  exact .inl (by rw [saved_at]; omega)

end Placed

theorem stack_inside : Region (below 0x8000#32 10) 12 := ⟨by decide,by decide⟩

/-- A call with the residual at 0x2000, the coefficients at 0x3000 and the samples at 0x1000. -/
def callAt {order len shift : Nat} {data : Word} (placed : Placed order len shift data)
    (arrays : Word → Word) : LpcCall where
  state :=
    { reg := fun
        | .r0 => 0x2000#32
        | .r1 => BitVec.ofNat 32 len
        | .r2 => 0x3000#32
        | .r3 => BitVec.ofNat 32 order
        | .r13 => 0x8000#32
        | _ => 0#32
      mem := fun a =>
        if a = 0x8000#32 then BitVec.ofNat 32 shift else if a = 0x8004#32 then data else arrays a
      z := false
      c := false }
  order := order
  len := len
  data := data
  stacked := 2
  nonempty := placed.some_len
  count := rfl
  samples := placed.samples
  residual := placed.residual
  stack := stack_inside
  samples_residual := placed.samples_residual
  samples_stack := placed.samples_stack
  residual_stack := placed.residual_stack
  shift := shift
  order_positive := placed.some_order
  order_small := placed.most_order
  shift_small := placed.most_shift
  arguments := rfl
  r3 := rfl
  quantization := rfl
  pointer := rfl
  coeff := placed.coeff
  samples_coeff := placed.samples_coeff
  coeff_stack := placed.coeff_stack

def arrays (warmup residual coeffs : List Word) (a : Word) : Word :=
  stored 0x1000#32 warmup a ||| stored 0x2000#32 residual a ||| stored 0x3000#32 coeffs a

theorem fiveSamples : Placed 2 5 1 0x1008#32 :=
  ⟨by decide,by decide,by decide,by decide,by decide,by decide⟩

/-- Four of its five sums do not fit in a word. -/
def wrapping : LpcCall :=
  callAt fiveSamples
    (arrays [0x60000000#32, 0x60000000#32] [1#32, 2#32, 3#32, 4#32, 5#32] [3#32, 0xffffffff#32])

theorem twoBehindNine : Placed 9 2 15 0x1024#32 :=
  ⟨by decide,by decide,by decide,by decide,by decide,by decide⟩

/-- The sums are about 2 to the 40. -/
def orderNine : LpcCall :=
  callAt twoBehindNine
    (arrays ((List.range 9).map fun k => BitVec.ofNat 32 (0x10000000 + 1000 * k))
      [235011226#32, 235012204#32]
      [4096#32, BitVec.ofInt 32 (-2048), 1024#32, 512#32, 256#32, 128#32, 64#32, 32#32, 16#32])

end LpcAsm
