import SqueezeOS.Fab4.Tsl2569

/- What CalculateLux returns for the T package, against the formula without a bound on the
   numbers, and where its operations on 32 bits leave that range. -/
namespace Tsl2569

def chScale (iGain tInt : BitVec 32) : BitVec 32 :=
  let chScale : BitVec 32 := if tInt = 0 then 0x7517 else if tInt = 1 then 0x0fe7 else 1 <<< 10
  if iGain = 0 then chScale <<< 4 else chScale

def scaled (iGain tInt ch : BitVec 32) : BitVec 32 := (ch * chScale iGain tInt) >>> 10

def ratioOf (channel0 channel1 : BitVec 32) : BitVec 32 :=
  ((if channel0 ≠ 0 then channel1 <<< 10 / channel0 else 0) + 1) >>> 1

theorem calculateLux_eq (iFactor iGain tInt ch0 ch1 : BitVec 32) :
    calculateLux iFactor iGain tInt ch0 ch1 0 =
      let channel0 := scaled iGain tInt ch0
      let channel1 := scaled iGain tInt ch1
      let bm := coefficients (ratioOf channel0 channel1) packageT
      (channel0 * bm.1 * iFactor - channel1 * bm.2 * iFactor + 1 <<< 15) >>> 16 := rfl

structure Terms where
  channel0 : Nat
  channel1 : Nat
  b : Nat
  m : Nat
  factor : Nat

def terms (iFactor iGain tInt ch0 ch1 : BitVec 32) : Terms :=
  let channel0 := scaled iGain tInt ch0
  let channel1 := scaled iGain tInt ch1
  let bm := coefficients (ratioOf channel0 channel1) packageT
  { channel0 := channel0.toNat, channel1 := channel1.toNat, b := bm.1.toNat, m := bm.2.toNat
    factor := iFactor.toNat }

/-- floor((max(0, channel0*b - channel1*m) * factor + 2^15) / 2^16) -/
def Terms.lux (t : Terms) : Nat := ((t.channel0 * t.b - t.channel1 * t.m) * t.factor + 2 ^ 15) / 2 ^ 16

def scalings (iGain tInt ch0 ch1 : BitVec 32) : List Int :=
  let scale : Int := if tInt = 0 then 0x7517 else if tInt = 1 then 0x0fe7 else 2 ^ 10
  let channel0 := scaled iGain tInt ch0
  let channel1 := scaled iGain tInt ch1
  [scale * 2 ^ 4, ch0.toNat * (chScale iGain tInt).toNat, ch1.toNat * (chScale iGain tInt).toNat,
    channel1.toNat * 2 ^ 10,
    (if channel0 ≠ 0 then channel1 <<< 10 / channel0 else 0 : BitVec 32).toNat + 1]

def Terms.products (t : Terms) : List Int :=
  [t.channel0 * t.b, t.channel0 * t.b * t.factor, t.channel1 * t.m, t.channel1 * t.m * t.factor,
    t.channel0 * t.b * t.factor - t.channel1 * t.m * t.factor,
    t.channel0 * t.b * t.factor - t.channel1 * t.m * t.factor + 2 ^ 15]

def InRange (x : Int) : Prop := 0 ≤ x ∧ x < 2 ^ 32

def LuxExact (iFactor iGain tInt ch0 ch1 : BitVec 32) : Prop :=
  (calculateLux iFactor iGain tInt ch0 ch1 0).toNat = (terms iFactor iGain tInt ch0 ch1).lux ∧
  ∀ x ∈ scalings iGain tInt ch0 ch1 ++ (terms iFactor iGain tInt ch0 ch1).products, InRange x

def fullScale (tInt : BitVec 32) : Nat :=
  if tInt = 0 then 5047 else if tInt = 1 then 37177 else 65535

/-- Channel 1 outweighs channel 0: without any light on channel 0, and in a band below the last
    of the break points. -/
def Terms.Negative (t : Terms) : Prop :=
  (t.channel0 = 0 ∧ t.channel1 ≠ 0) ∨
    (141 * t.channel0 < 166 * t.channel1 ∧ 1024 * t.channel1 < 871 * t.channel0)

def Terms.Fits (t : Terms) : Prop :=
  (t.factor = 0 ∨ ¬ t.Negative) ∧ t.channel0 * t.b * t.factor < 2 ^ 32 ∧
    (t.channel0 * t.b - t.channel1 * t.m) * t.factor + 2 ^ 15 < 2 ^ 32

instance (t : Terms) : Decidable t.Negative := inferInstanceAs (Decidable (_ ∨ _))

instance (t : Terms) : Decidable t.Fits := inferInstanceAs (Decidable (_ ∧ _))

section
variable {iFactor iGain tInt ch0 ch1 : BitVec 32}

theorem chScale_toNat (iGain tInt : BitVec 32) : (chScale iGain tInt).toNat =
    (if tInt = 0 then 0x7517 else if tInt = 1 then 0x0fe7 else 2 ^ 10) *
      if iGain = 0 then 16 else 1 := by
  unfold chScale
  dsimp only
  split_ifs <;> rfl

theorem product_bound {ch : BitVec 32} (count : ch.toNat ≤ fullScale tInt) :
    ch.toNat * (chScale iGain tInt).toNat < 2 ^ 32 - 2 ^ 10 := by
  rw [chScale_toNat]
  unfold fullScale at count
  by_cases low : iGain = 0
  · rw [if_pos low]
    split_ifs at count ⊢ <;> omega
  · rw [if_neg low]
    split_ifs at count ⊢ <;> omega

theorem scaled_toNat {ch : BitVec 32} (count : ch.toNat ≤ fullScale tInt) :
    (scaled iGain tInt ch).toNat = ch.toNat * (chScale iGain tInt).toNat / 2 ^ 10 := by
  have small : ch.toNat * (chScale iGain tInt).toNat < 2 ^ 32 - 2 ^ 10 := product_bound count
  rw [scaled, BitVec.toNat_ushiftRight, BitVec.toNat_mul_of_lt (by omega), Nat.shiftRight_eq_div_pow]

theorem scaled_bound {ch : BitVec 32} (count : ch.toNat ≤ fullScale tInt) :
    (scaled iGain tInt ch).toNat * 2 ^ 10 < 2 ^ 32 - 2 ^ 10 := by
  have small : ch.toNat * (chScale iGain tInt).toNat < 2 ^ 32 - 2 ^ 10 := product_bound count
  rw [scaled_toNat count]
  omega

theorem shifted_toNat {channel : BitVec 32} (small : channel.toNat * 2 ^ 10 < 2 ^ 32 - 2 ^ 10) :
    (channel <<< 10).toNat = channel.toNat * 2 ^ 10 := by
  rw [BitVec.toNat_shiftLeft, Nat.shiftLeft_eq, Nat.mod_eq_of_lt (by omega)]

theorem ratioOf_toNat {channel0 channel1 : BitVec 32}
    (small : channel1.toNat * 2 ^ 10 < 2 ^ 32 - 2 ^ 10) : (ratioOf channel0 channel1).toNat =
      ((if channel0.toNat ≠ 0 then channel1.toNat * 2 ^ 10 / channel0.toNat else 0) + 1) / 2 := by
  have shifted := shifted_toNat small
  unfold ratioOf
  rw [BitVec.toNat_ushiftRight, Nat.shiftRight_eq_div_pow, BitVec.toNat_add]
  by_cases zero : channel0 = 0
  · simp [zero]
  · have nonzero : channel0.toNat ≠ 0 := fun none => zero (BitVec.eq_of_toNat_eq none)
    have quotient : channel1.toNat * 2 ^ 10 / channel0.toNat ≤ channel1.toNat * 2 ^ 10 :=
      Nat.div_le_self _ _
    rw [if_pos zero, if_pos nonzero, BitVec.toNat_udiv, shifted]
    rw [Nat.mod_eq_of_lt]
    · rfl
    · change _ + 1 < 2 ^ 32
      omega

theorem ratio_le_iff {channel0 channel1 k : Nat} (light : channel0 ≠ 0) :
    ((if channel0 ≠ 0 then channel1 * 2 ^ 10 / channel0 else 0) + 1) / 2 ≤ k ↔
      1024 * channel1 < (2 * k + 1) * channel0 := by
  rw [if_pos light]
  have half : (channel1 * 2 ^ 10 / channel0 + 1) / 2 ≤ k ↔
      channel1 * 2 ^ 10 / channel0 < 2 * k + 1 := by omega
  rw [half, Nat.div_lt_iff_lt_mul (Nat.pos_of_ne_zero light)]
  omega

theorem coefficients_packageT (ratio : BitVec 32) : coefficients ratio packageT =
    if ratio.toNat ≤ 179 then (500, 676) else if ratio.toNat ≤ 256 then (535, 778)
    else if ratio.toNat ≤ 307 then (474, 655) else if ratio.toNat ≤ 369 then (375, 492)
    else if ratio.toNat ≤ 435 then (141, 166) else (0, 0) := rfl

theorem subtraction_iff {ratio : BitVec 32} {channel0 channel1 : Nat}
    (rounded : ratio.toNat =
      ((if channel0 ≠ 0 then channel1 * 2 ^ 10 / channel0 else 0) + 1) / 2) :
    channel0 * (coefficients ratio packageT).1.toNat <
        channel1 * (coefficients ratio packageT).2.toNat ↔
      (channel0 = 0 ∧ channel1 ≠ 0) ∨
        (141 * channel0 < 166 * channel1 ∧ 1024 * channel1 < 871 * channel0) := by
  rw [coefficients_packageT, rounded]
  by_cases dark : channel0 = 0
  · subst dark
    simp [Nat.pos_iff_ne_zero]
  · simp only [ratio_le_iff dark]
    split_ifs
    all_goals
      simp only [BitVec.ofNat_eq_ofNat, BitVec.toNat_ofNat]
      omega

theorem negative_iff (count1 : ch1.toNat ≤ fullScale tInt) :
    (terms iFactor iGain tInt ch0 ch1).channel0 * (terms iFactor iGain tInt ch0 ch1).b <
        (terms iFactor iGain tInt ch0 ch1).channel1 * (terms iFactor iGain tInt ch0 ch1).m ↔
      (terms iFactor iGain tInt ch0 ch1).Negative :=
  subtraction_iff (ratioOf_toNat (scaled_bound count1))

theorem product_fits {ch : BitVec 32} (count : ch.toNat ≤ fullScale tInt) {coefficient : Nat}
    (small : coefficient ≤ 778) : (scaled iGain tInt ch).toNat * coefficient < 2 ^ 32 := by
  have bound : (scaled iGain tInt ch).toNat * 2 ^ 10 < 2 ^ 32 - 2 ^ 10 := scaled_bound count
  calc (scaled iGain tInt ch).toNat * coefficient
      ≤ (scaled iGain tInt ch).toNat * 2 ^ 10 := Nat.mul_le_mul_left _ (small.trans (by decide))
    _ < 2 ^ 32 := bound.trans (by decide)

theorem coefficient_bounds (ratio : BitVec 32) :
    (coefficients ratio packageT).1.toNat ≤ 778 ∧ (coefficients ratio packageT).2.toNat ≤ 778 := by
  rw [coefficients_packageT]
  split_ifs <;> decide

theorem scalings_inRange (count0 : ch0.toNat ≤ fullScale tInt) (count1 : ch1.toNat ≤ fullScale tInt) :
    ∀ x ∈ scalings iGain tInt ch0 ch1, InRange x := by
  have first : ch0.toNat * (chScale iGain tInt).toNat < 2 ^ 32 - 2 ^ 10 := product_bound count0
  have second : ch1.toNat * (chScale iGain tInt).toNat < 2 ^ 32 - 2 ^ 10 := product_bound count1
  have shifted : (scaled iGain tInt ch1).toNat * 2 ^ 10 < 2 ^ 32 - 2 ^ 10 := scaled_bound count1
  have quotient : (if scaled iGain tInt ch0 ≠ 0 then
      scaled iGain tInt ch1 <<< 10 / scaled iGain tInt ch0 else 0 : BitVec 32).toNat <
        2 ^ 32 - 2 ^ 10 := by
    split
    · rw [BitVec.toNat_udiv, shifted_toNat shifted]
      exact Nat.lt_of_le_of_lt (Nat.div_le_self _ _) shifted
    · decide
  simp only [scalings, List.forall_mem_cons, InRange]
  refine ⟨?_,by omega,by omega,by omega,by omega,by simp⟩
  split_ifs <;> decide

theorem difference_inRange_iff {p q : Nat} (f : Nat) (pBound : p < 2 ^ 32) (qBound : q < 2 ^ 32) :
    (∀ x ∈ [(p : Int), p * f, q, q * f, p * f - q * f, p * f - q * f + 2 ^ 15], InRange x) ↔
      (f = 0 ∨ ¬ p < q) ∧ p * f < 2 ^ 32 ∧ (p - q) * f + 2 ^ 15 < 2 ^ 32 := by
  have order : (f = 0 ∨ ¬ p < q) ↔ q * f ≤ p * f := by
    by_cases zero : f = 0
    · simp [zero]
    · rw [Nat.mul_le_mul_right_iff (Nat.pos_of_ne_zero zero)]
      omega
  rw [order, Nat.sub_mul]
  simp only [List.forall_mem_cons, InRange, ← Int.natCast_mul]
  generalize p * f = left
  generalize q * f = right
  constructor
  · rintro ⟨-,⟨-,small⟩,-,-,⟨positive,-⟩,⟨-,rounded⟩,-⟩
    omega
  · rintro ⟨positive,small,rounded⟩
    refine ⟨?_,?_,?_,?_,?_,?_,by simp⟩ <;> omega

theorem products_inRange_iff (count0 : ch0.toNat ≤ fullScale tInt)
    (count1 : ch1.toNat ≤ fullScale tInt) :
    (∀ x ∈ (terms iFactor iGain tInt ch0 ch1).products, InRange x) ↔
      (terms iFactor iGain tInt ch0 ch1).Fits := by
  obtain ⟨bBound,mBound⟩ := coefficient_bounds
    (ratioOf (scaled iGain tInt ch0) (scaled iGain tInt ch1))
  rw [Terms.Fits, ← negative_iff count1]
  exact difference_inRange_iff _ (product_fits count0 bBound) (product_fits count1 mBound)

theorem product_toNat {x y z : BitVec 32} (one : x.toNat * y.toNat < 2 ^ 32)
    (two : x.toNat * y.toNat * z.toNat < 2 ^ 32) :
    (x * y * z).toNat = x.toNat * y.toNat * z.toNat := by
  have first : (x * y).toNat = x.toNat * y.toNat := BitVec.toNat_mul_of_lt one
  rw [BitVec.toNat_mul_of_lt, first]
  rw [first]
  exact two

theorem calculateLux_toNat
    (inRange : ∀ x ∈ (terms iFactor iGain tInt ch0 ch1).products, InRange x) :
    (calculateLux iFactor iGain tInt ch0 ch1 0).toNat = (terms iFactor iGain tInt ch0 ch1).lux := by
  simp only [Terms.products, List.forall_mem_cons, InRange, ← Int.natCast_mul] at inRange
  obtain ⟨⟨-,first⟩,⟨-,left⟩,⟨-,second⟩,⟨-,right⟩,⟨positive,-⟩,⟨-,rounded⟩,-⟩ := inRange
  have minuend := product_toNat (x := scaled iGain tInt ch0) (z := iFactor)
    (Int.ofNat_lt.mp first) (Int.ofNat_lt.mp left)
  have subtrahend := product_toNat (x := scaled iGain tInt ch1) (z := iFactor)
    (Int.ofNat_lt.mp second) (Int.ofNat_lt.mp right)
  rw [calculateLux_eq, Terms.lux, Nat.sub_mul]
  simp only [terms] at *
  have half : (1 <<< 15 : BitVec 32).toNat = 2 ^ 15 := rfl
  rw [BitVec.toNat_ushiftRight, Nat.shiftRight_eq_div_pow, BitVec.toNat_add,
    BitVec.toNat_sub_of_le (by rw [BitVec.le_def, minuend, subtrahend]; omega), minuend, subtrahend,
    half, Nat.mod_eq_of_lt (by omega)]

end

/-- For what the attribute factor takes and the chip delivers, the formula is computed without a
    wrap exactly when the channels are not in the band where it is negative, and the factor is
    small enough for what is left of them. -/
theorem luxExact_iff (iFactor iGain tInt ch0 ch1 : BitVec 32)
    (count0 : ch0.toNat ≤ fullScale tInt) (count1 : ch1.toNat ≤ fullScale tInt) :
    LuxExact iFactor iGain tInt ch0 ch1 ↔ (terms iFactor iGain tInt ch0 ch1).Fits := by
  rw [LuxExact, List.forall_mem_append, ← products_inRange_iff count0 count1]
  constructor
  · rintro ⟨-,-,products⟩
    exact products
  · intro products
    exact ⟨calculateLux_toNat products,scalings_inRange count0 count1,products⟩

theorem daylight_exact : (1000 : BitVec 32).toNat ≤ fullScale 2 ∧
    (500 : BitVec 32).toNat ≤ fullScale 2 ∧ LuxExact 1 1 2 1000 500 :=
  ⟨by decide,by decide,(luxExact_iff 1 1 2 1000 500 (by decide) (by decide)).mpr (by decide)⟩

/-- In the band 65535 comes out, where the formula gives 0. -/
theorem band_wraps : (20000 : BitVec 32).toNat ≤ fullScale 2 ∧
    (17011 : BitVec 32).toNat ≤ fullScale 2 ∧
    calculateLux 1 0 2 20000 17011 0 = 65535 ∧ (terms 1 0 2 20000 17011).lux = 0 ∧
    ¬ LuxExact 1 0 2 20000 17011 := by
  have wrapped : calculateLux 1 0 2 20000 17011 0 = 65535 := by decide
  have formula : (terms 1 0 2 20000 17011).lux = 0 := by decide
  refine ⟨by decide,by decide,wrapped,formula,?_⟩
  rintro ⟨same,-⟩
  rw [wrapped, formula] at same
  contradiction

end Tsl2569
