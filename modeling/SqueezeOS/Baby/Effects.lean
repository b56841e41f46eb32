import Mathlib.Logic.Function.Iterate
import SqueezeOS.BitFields
import SqueezeOS.Baby.Codec

/- The controls for the coefficients of the codec's filters: two registers of page B for each
   channel, written as a word and read back byte by byte from the cache. -/
namespace Codec
open BitFields

def sndSocRead (s : State) (reg : Nat) : Nat :=
  match readRegCache s.cache reg with
  | some value => value.toNat
  | none => 2 ^ 32 - 1

def effectDoubleR (regLeft regRight : Nat) : Nat := regLeft ||| regRight <<< 24

def getEffect (privateValue : Nat) (s : State) : Nat × Nat :=
  let reg := privateValue &&& 0xff
  let reg2 := (privateValue >>> 24) &&& 0xff
  (sndSocRead s reg ||| (sndSocRead s (reg + 1) <<< 8) % 2 ^ 32,
    sndSocRead s reg2 ||| (sndSocRead s (reg2 + 1) <<< 8) % 2 ^ 32)

/-- With transfers that arrive. -/
def putEffect (privateValue : Nat) (value : Nat × Nat) (s : State) : Int × State :=
  let reg := privateValue &&& 0xff
  let reg2 := (privateValue >>> 24) &&& 0xff
  let (err, s) := writeReg (reg ||| writeWord) value.1 true true s
  if err ≠ 0 then (err, s) else writeReg (reg2 ||| writeWord) value.2 true true s

def rewrite (privateValue : Nat) (s : State) : State :=
  (putEffect privateValue (getEffect privateValue s) s).2

structure Pairs (left right : Nat) : Prop where
  first : 128 ≤ left ∧ left + 1 < cacheregnum
  second : 128 ≤ right ∧ right + 1 < cacheregnum
  apart : left + 1 < right ∨ right + 1 < left

structure Agrees (s : State) : Prop where
  page : s.chip.page = s.regPage
  cached : Cached s.cache s.chip

/-- A value that is put is the one that is read back, and rewriting what is there changes
    nothing, neither in the chip nor in the cache. -/
structure Survives (left right : Nat) (value : Nat × Nat) (s : State) : Prop where
  returned : (putEffect (effectDoubleR left right) value s).1 = 0 ∧
    getEffect (effectDoubleR left right) (putEffect (effectDoubleR left right) value s).2 = value
  kept : ∀ n, ∀ reg < cacheregnum,
    ((rewrite (effectDoubleR left right))^[n] s).chip.held reg = s.chip.held reg ∧
    readRegCache ((rewrite (effectDoubleR left right))^[n] s).cache reg = readRegCache s.cache reg

def Doubled (value : Nat) : Prop := value / 256 = value % 256

instance (value : Nat) : Decidable (Doubled value) := inferInstanceAs (Decidable (_ = _))

def EqualBytes (left right : Nat) (value : Nat × Nat) (s : State) : Prop :=
  Doubled value.1 ∧ Doubled value.2 ∧
  readRegCache s.cache left = readRegCache s.cache (left + 1) ∧
  readRegCache s.cache right = readRegCache s.cache (right + 1)

theorem effectDoubleR_regs {left right : Nat} (small : left < 256) (small' : right < 256) :
    effectDoubleR left right &&& 0xff = left ∧
    (effectDoubleR left right >>> 24) &&& 0xff = right := by
  have mask (x : Nat) : x &&& 0xff = x % 256 := Nat.and_two_pow_sub_one_eq_mod x 8
  have sum : effectDoubleR left right = left + right * 2 ^ 24 :=
    or_shift_above (Nat.lt_trans small (by decide)) right
  rw [mask, mask, sum, Nat.shiftRight_eq_div_pow]
  omega

theorem Chip.write_held {chip : Chip} (page : chip.page = 1) {reg : Nat} (pageB : 128 ≤ reg)
    (below : reg + 1 < 256) :
    chip.write (reg % 128) [chip.held reg, chip.held (reg + 1)] = chip := by
  have second : (reg + 1) % 128 ≠ 0 ∧ 1 * 128 + (reg % 128 + 1) = reg + 1 := by omega
  obtain ⟨selected,regs⟩ := chip
  cases page
  have next : Chip.held ⟨1,regs⟩ (reg + 1) = regs (reg + 1) := if_neg second.1
  by_cases select : reg % 128 = 0
  · have one : reg = 128 := by omega
    subst one
    exact congrArg (Chip.mk 1) (Function.update_eq_self 129 regs)
  · have first : Chip.held ⟨1,regs⟩ reg = regs reg := if_neg select
    have place : 1 * 128 + reg % 128 = reg := by omega
    simp only [Chip.write, if_neg select, first, next, place, second.2, Function.update_eq_self]
    exact if_neg (Nat.succ_ne_zero _)

section
variable {s : State} {reg : Nat}

theorem turnPage_B (s : State) :
    ∃ t, turnPage 1 true s = some t ∧ t.cache = s.cache ∧ t.regPage = 1 ∧
      (Agrees s → t.chip = ⟨1,s.chip.regs⟩) := by
  unfold turnPage
  split
  · exact ⟨_,rfl,rfl,rfl,fun _ => rfl⟩
  · rename_i same
    have there : s.regPage = 1 := by omega
    refine ⟨s,rfl,rfl,there,fun agrees => ?_⟩
    rw [← agrees.page.trans there]

theorem writeWord_arrives (s : State) (pageB : 128 ≤ reg) (known : reg + 1 < cacheregnum)
    (value : Nat) :
    ∃ t, writeReg (reg ||| writeWord) value true true s = (0, t) ∧
      t.cache = writeRegCache (writeRegCache s.cache reg (UInt8.ofNat (value >>> 8))) (reg + 1)
        (UInt8.ofNat value) ∧
      t.regPage = 1 ∧
      (Agrees s → t.chip = Chip.write ⟨1,s.chip.regs⟩ (reg % 128)
        [UInt8.ofNat (value >>> 8), UInt8.ofNat value]) := by
  have small : reg < 256 := Nat.lt_trans (Nat.lt_of_succ_lt known) (by decide)
  have one : reg / 128 = 1 := by omega
  obtain ⟨page,offset,word,_,_⟩ := word_fields reg small
  obtain ⟨t,turned,cache,known,chip⟩ := turnPage_B s
  simp only [writeReg, page, one, turned, word, offset, writeRegCache_word small, ne_eq,
    not_false_eq_true, if_true]
  refine ⟨_,rfl,?_,known,fun agrees => ?_⟩
  · rw [cache]
  · rw [chip agrees]

theorem writeWord_same (agrees : Agrees s) (pageB : 128 ≤ reg) (known : reg + 1 < cacheregnum)
    (value : Nat) (msb : UInt8.ofNat (value >>> 8) = s.chip.held reg)
    (lsb : UInt8.ofNat value = s.chip.held (reg + 1)) :
    ∃ t, writeReg (reg ||| writeWord) value true true s = (0, t) ∧ Agrees t ∧
      t.chip.regs = s.chip.regs ∧ ∀ other, readRegCache t.cache other = readRegCache s.cache other := by
  have first : reg < cacheregnum := by omega
  obtain ⟨t,written,cache,page,chip⟩ := writeWord_arrives s pageB known value
  have held (other : Nat) : Chip.held ⟨1,s.chip.regs⟩ other = s.chip.held other := rfl
  have chip : t.chip = ⟨1,s.chip.regs⟩ := by
    rw [chip agrees, msb, lsb, ← held, ← held]
    exact Chip.write_held rfl pageB (Nat.lt_trans known (by decide))
  have same (other : Nat) : readRegCache t.cache other = readRegCache s.cache other := by
    rw [cache, readRegCache_write known, readRegCache_write first, msb, lsb]
    split
    · rename_i here
      rw [here, agrees.cached _ known]
    · split
      · rename_i here
        rw [here, agrees.cached _ first]
      · rfl
  refine ⟨t,written,⟨?_,?_⟩,?_,same⟩
  · rw [chip, page]
  · intro other below
    rw [same, agrees.cached other below, chip]
    rfl
  · rw [chip]

/-- What the control has for one channel: the first byte is taken for the low one. -/
def coefficient (s : State) (reg : Nat) : Nat :=
  sndSocRead s reg ||| (sndSocRead s (reg + 1) <<< 8) % 2 ^ 32

theorem coefficient_eq {first second : UInt8} (known : readRegCache s.cache reg = some first)
    (known' : readRegCache s.cache (reg + 1) = some second) :
    coefficient s reg = first.toNat + second.toNat * 2 ^ 8 := by
  have small := first.toNat_lt
  have small' := second.toNat_lt
  have fits : second.toNat <<< 8 < 2 ^ 32 := by
    rw [Nat.shiftLeft_eq]
    omega
  simp only [coefficient, sndSocRead, known, known', Nat.mod_eq_of_lt fits]
  exact or_shift_above small _

end

section
variable {left right : Nat}

theorem getEffect_eq (pairs : Pairs left right) (s : State) :
    getEffect (effectDoubleR left right) s = (coefficient s left, coefficient s right) := by
  obtain ⟨first,second⟩ := effectDoubleR_regs
    (Nat.lt_trans (Nat.lt_of_succ_lt pairs.first.2) (by decide))
    (Nat.lt_trans (Nat.lt_of_succ_lt pairs.second.2) (by decide))
  simp only [getEffect, first, second]
  rfl

theorem putEffect_cache (pairs : Pairs left right) (value : Nat × Nat) (s : State) :
    ∃ t, putEffect (effectDoubleR left right) value s = (0, t) ∧
      readRegCache t.cache left = some (UInt8.ofNat (value.1 >>> 8)) ∧
      readRegCache t.cache (left + 1) = some (UInt8.ofNat value.1) ∧
      readRegCache t.cache right = some (UInt8.ofNat (value.2 >>> 8)) ∧
      readRegCache t.cache (right + 1) = some (UInt8.ofNat value.2) := by
  obtain ⟨first,second⟩ := effectDoubleR_regs
    (Nat.lt_trans (Nat.lt_of_succ_lt pairs.first.2) (by decide))
    (Nat.lt_trans (Nat.lt_of_succ_lt pairs.second.2) (by decide))
  obtain ⟨u,written,cache,_⟩ := writeWord_arrives s pairs.first.1 pairs.first.2 value.1
  obtain ⟨t,written',cache',_⟩ := writeWord_arrives u pairs.second.1 pairs.second.2 value.2
  have apart := pairs.apart
  refine ⟨t,?_,?_⟩
  · simp only [putEffect, first, second, written, ne_eq, not_true_eq_false, if_false, written']
  · rw [cache', cache]
    simp only [readRegCache_write pairs.first.2, readRegCache_write pairs.second.2,
      readRegCache_write (Nat.lt_of_succ_lt pairs.first.2),
      readRegCache_write (Nat.lt_of_succ_lt pairs.second.2)]
    refine ⟨?_,?_,?_,?_⟩
    · rw [if_neg (by omega), if_neg (by omega), if_neg (by omega), if_pos trivial]
    · rw [if_neg (by omega), if_neg (by omega), if_pos trivial]
    · rw [if_neg (by omega), if_pos trivial]
    · rw [if_pos trivial]

/-- Of a value that is put, what is read back has the bytes swapped. -/
theorem returned_iff (pairs : Pairs left right) {value : Nat × Nat} (s : State)
    (word : value.1 < 2 ^ 16) (word' : value.2 < 2 ^ 16) :
    ((putEffect (effectDoubleR left right) value s).1 = 0 ∧
      getEffect (effectDoubleR left right) (putEffect (effectDoubleR left right) value s).2 = value) ↔
      Doubled value.1 ∧ Doubled value.2 := by
  obtain ⟨t,put,high,low,high',low'⟩ := putEffect_cache pairs value s
  rw [put, getEffect_eq pairs, coefficient_eq high low, coefficient_eq high' low', Prod.ext_iff]
  simp only [UInt8.toNat_ofNat', Nat.shiftRight_eq_div_pow, true_and, Doubled]
  omega

theorem coefficient_bytes {s : State} (agrees : Agrees s) {reg : Nat}
    (known : reg + 1 < cacheregnum) :
    UInt8.ofNat (coefficient s reg >>> 8) = s.chip.held (reg + 1) ∧
    UInt8.ofNat (coefficient s reg) = s.chip.held reg := by
  rw [coefficient_eq (agrees.cached reg (by omega)) (agrees.cached (reg + 1) known)]
  have small := (s.chip.held reg).toNat_lt
  have small' := (s.chip.held (reg + 1)).toNat_lt
  refine ⟨?_,?_⟩
  · rw [← UInt8.toNat_inj, UInt8.toNat_ofNat', Nat.shiftRight_eq_div_pow]
    omega
  · rw [← UInt8.toNat_inj, UInt8.toNat_ofNat']
    omega

theorem rewrite_cache (pairs : Pairs left right) {s : State} (agrees : Agrees s) :
    readRegCache (rewrite (effectDoubleR left right) s).cache left =
      some (s.chip.held (left + 1)) ∧
    readRegCache (rewrite (effectDoubleR left right) s).cache right =
      some (s.chip.held (right + 1)) := by
  obtain ⟨t,put,high,_,high',_⟩ :=
    putEffect_cache pairs (getEffect (effectDoubleR left right) s) s
  rw [getEffect_eq pairs] at high high'
  rw [(coefficient_bytes agrees pairs.first.2).1] at high
  rw [(coefficient_bytes agrees pairs.second.2).1] at high'
  rw [rewrite, put]
  exact ⟨high,high'⟩

structure Same (s t : State) : Prop where
  agrees : Agrees t
  regs : t.chip.regs = s.chip.regs
  cache : ∀ reg, readRegCache t.cache reg = readRegCache s.cache reg

theorem Same.held {s t : State} (same : Same s t) (reg : Nat) :
    t.chip.held reg = s.chip.held reg := by
  unfold Chip.held
  rw [same.regs]

theorem rewrite_same (pairs : Pairs left right) {s : State} (agrees : Agrees s)
    (equal : s.chip.held left = s.chip.held (left + 1))
    (equal' : s.chip.held right = s.chip.held (right + 1)) :
    Same s (rewrite (effectDoubleR left right) s) := by
  obtain ⟨first,second⟩ := effectDoubleR_regs
    (Nat.lt_trans (Nat.lt_of_succ_lt pairs.first.2) (by decide))
    (Nat.lt_trans (Nat.lt_of_succ_lt pairs.second.2) (by decide))
  obtain ⟨msb,lsb⟩ := coefficient_bytes agrees pairs.first.2
  obtain ⟨msb',lsb'⟩ := coefficient_bytes agrees pairs.second.2
  obtain ⟨u,written,agrees',regs,cache⟩ := writeWord_same agrees pairs.first.1 pairs.first.2 _
    (msb.trans equal.symm) (lsb.trans equal)
  have held (reg : Nat) : u.chip.held reg = s.chip.held reg := by
    unfold Chip.held
    rw [regs]
  obtain ⟨t,written',agrees'',regs',cache'⟩ := writeWord_same agrees' pairs.second.1
    pairs.second.2 (coefficient s right) (by rw [held, equal', msb'])
    (by rw [held, ← equal', lsb'])
  have done : rewrite (effectDoubleR left right) s = t := by
    simp only [rewrite, putEffect, getEffect_eq pairs, first, second, written, ne_eq,
      not_true_eq_false, if_false, written']
  rw [done]
  exact ⟨agrees'',regs'.trans regs,fun reg => (cache' reg).trans (cache reg)⟩

theorem rewrites_same (pairs : Pairs left right) {s : State} (agrees : Agrees s)
    (equal : s.chip.held left = s.chip.held (left + 1))
    (equal' : s.chip.held right = s.chip.held (right + 1)) (n : Nat) :
    Same s ((rewrite (effectDoubleR left right))^[n] s) := by
  induction n with
  | zero => exact ⟨agrees,rfl,fun _ => rfl⟩
  | succ n ih =>
    rw [Function.iterate_succ_apply']
    have next := rewrite_same pairs ih.agrees (by rw [ih.held, ih.held, equal])
      (by rw [ih.held, ih.held, equal'])
    exact ⟨next.agrees,next.regs.trans ih.regs,fun reg => (next.cache reg).trans (ih.cache reg)⟩

/-- Coefficients survive exactly where it does not matter which of their bytes comes first. -/
theorem survives_iff (pairs : Pairs left right) (value : Nat × Nat) (word : value.1 < 2 ^ 16)
    (word' : value.2 < 2 ^ 16) {s : State} (agrees : Agrees s) :
    Survives left right value s ↔ EqualBytes left right value s := by
  have first := agrees.cached left (Nat.lt_of_succ_lt pairs.first.2)
  have first' := agrees.cached (left + 1) pairs.first.2
  have second := agrees.cached right (Nat.lt_of_succ_lt pairs.second.2)
  have second' := agrees.cached (right + 1) pairs.second.2
  constructor
  · rintro ⟨returned,kept⟩
    obtain ⟨doubled,doubled'⟩ := (returned_iff pairs s word word').mp returned
    obtain ⟨swapped,swapped'⟩ := rewrite_cache pairs agrees
    refine ⟨doubled,doubled',?_,?_⟩
    · rw [← (kept 1 left (Nat.lt_of_succ_lt pairs.first.2)).2, Function.iterate_one, swapped,
        first']
    · rw [← (kept 1 right (Nat.lt_of_succ_lt pairs.second.2)).2, Function.iterate_one, swapped',
        second']
  · rintro ⟨doubled,doubled',equal,equal'⟩
    rw [first, first', Option.some.injEq] at equal
    rw [second, second', Option.some.injEq] at equal'
    refine ⟨(returned_iff pairs s word word').mpr ⟨doubled,doubled'⟩,?_⟩
    intro n reg below
    have same := rewrites_same pairs agrees equal equal' n
    exact ⟨same.held reg,same.cache reg⟩

end

theorem afterReset_agrees : Agrees afterReset :=
  ⟨rfl,afterReset_probed.cached⟩

theorem doubled_survives : Pairs 185 187 ∧ Agrees afterReset ∧
    Survives 185 187 (0x6b6b, 0) afterReset := by
  have pairs : Pairs 185 187 := ⟨by decide,by decide,by decide⟩
  refine ⟨pairs,afterReset_agrees,?_⟩
  apply (survives_iff pairs _ (by decide) (by decide) afterReset_agrees).mpr
  exact ⟨by decide,by decide,by decide +kernel,by decide +kernel⟩

theorem swapped_coefficient : Pairs 129 155 ∧ Agrees afterReset ∧
    ¬Survives 129 155 (0x1234, 0x1234) afterReset := by
  have pairs : Pairs 129 155 := ⟨by decide,by decide,by decide⟩
  refine ⟨pairs,afterReset_agrees,?_⟩
  intro survives
  have doubled := ((returned_iff pairs _ (by decide) (by decide)).mp survives.returned).1
  exact absurd doubled (by decide)

end Codec
